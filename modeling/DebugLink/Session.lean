import DebugLink.Device
import DebugLink.Registry
import DebugLink.Runner.Basic
import DebugLink.Sim.Tap

/-!
# Sessions

A session holds what works together: the devices by name, a tapped target behind each of them,
the host, and the notes that nobody collected yet. A target keeps its place for good; a device
that is taken out of the registry, or replaced, leaves its target there.
-/

namespace DebugLink

/-- Devices, targets and a host. -/
structure Session (A : Arch) (σ η : Type) where
  /-- The devices, each with the place of its target. -/
  registry : Registry (Device A × Nat) := {}
  taps : Array (Tap A σ) := #[]
  host : η
  notes : Array Note := #[]

/-- A device of a session. -/
structure Seat (A : Arch) where
  name : String
  device : Device A
  /-- The place of its target. -/
  place : Nat

/-- Computations on a session. -/
abbrev SessionM (A : Arch) (σ η : Type) := StateM (Session A σ η)

namespace Session

variable {A : Arch} {σ η α : Type}

/-- Adds a device with a target of its own; answers the device that had the name before. -/
def insert (name : String) (config : AreaConfig A.width) (inner : σ) :
    SessionM A σ η (Option (Device A)) :=
  modifyGet fun ⟨registry, taps, host, notes⟩ =>
    let place := taps.size
    let (old, after) := registry.insert name (.fresh place config, place)
    (old.map (·.1),
      ⟨after, taps.push { inner }, host, notes.push (registry.insertNote name)⟩)

/-- Takes a device out; answers its name and the device. -/
def remove (name : String) : SessionM A σ η (Option (String × Device A)) :=
  modifyGet fun ⟨registry, taps, host, notes⟩ =>
    let (old, registry) := registry.remove name
    (old.map fun e => (e.1, e.2.1), ⟨registry, taps, host, notes⟩)

/-- Selects a device; answers whether there is one of that name. -/
def select (name : String) : SessionM A σ η Bool :=
  modifyGet fun ⟨registry, taps, host, notes⟩ =>
    let (found, after) := registry.select name
    (found, ⟨after, taps, host, notes ++ registry.selectNotes name⟩)

/-- The device of a name, or the selected one. -/
def seat? (s : Session A σ η) : Option String → Option (Seat A)
  | some name => (s.registry.get? name).map fun e => ⟨name, e.1, e.2⟩
  | none => s.registry.selected?.map fun e => ⟨e.1, e.2.1, e.2.2⟩

/-- Stores a device under its name. -/
def setDevice (name : String) (device : Device A) : SessionM A σ η Unit :=
  modify fun ⟨registry, taps, host, notes⟩ =>
    ⟨registry.modify name fun e => (device, e.2), taps, host, notes⟩

/-- Lets something happen to the target at a place, the host and the notes. -/
def onScene (place : Nat) (f : Scene (Tap A σ) η → α × Scene (Tap A σ) η) :
    SessionM A σ η (Option α) :=
  modifyGet fun ⟨registry, taps, host, notes⟩ =>
    let change (tap : Tap A σ) : StateM (Option α × η × Array Note) (Tap A σ) :=
      fun (_, host, notes) =>
        match f ⟨tap, host, notes⟩ with
        | (a, ⟨tap, host, notes⟩) => (tap, some a, host, notes)
    match (taps.modifyM place change).run (none, host, notes) with
    | (taps, answer, host, notes) => (answer, ⟨registry, taps, host, notes⟩)

/-- Changes the target at a place. -/
def onTap (place : Nat) (f : Tap A σ → α × Tap A σ) : SessionM A σ η (Option α) :=
  onScene place fun ⟨tap, host, notes⟩ =>
    match f tap with
    | (a, tap) => (a, ⟨tap, host, notes⟩)

/-- Changes the state of a target behind its tap. -/
def onInner (place : Nat) (f : σ → Reply σ α) : SessionM A σ η (Option α) :=
  onScene place fun ⟨⟨inner, faults, calls⟩, host, notes⟩ =>
    match f inner with
    | ⟨a, inner, more⟩ => (a, ⟨⟨inner, faults, calls⟩, host, notes ++ more⟩)

/-- Hands out the calls that the tap at a place wrote down. -/
def takeCalls (place : Nat) : SessionM A σ η (List (TappedCall A)) := do
  let calls ← onTap place fun ⟨inner, faults, calls⟩ => (calls.toList, ⟨inner, faults, #[]⟩)
  return calls.getD []

/-- Hands out the notes. -/
def takeNotes : SessionM A σ η (List Note) :=
  modifyGet fun ⟨registry, taps, host, notes⟩ => (notes.toList, ⟨registry, taps, host, #[]⟩)

variable (t : Target A σ) (h : Host η)

/-- Plays a dialogue with the target of a device. -/
def play (seat : Seat A) (d : Dialogue A α) : SessionM A σ η (Option α) :=
  onScene seat.place (d.run t.tapped h)

/-- Works on the areas of a device; answers also what became of them. -/
def onAreas (seat : Seat A) (x : StateT (Areas A.width) (Dialogue A) α) :
    SessionM A σ η (Option (α × Areas A.width)) := do
  match ← play t h seat (x.run seat.device.areas) with
  | none => return none
  | some (a, areas) =>
    setDevice seat.name { seat.device with areas }
    return some (a, areas)

/-- Works with a runner on a device; answers also what became of the runner and the guard. -/
def onRunner (seat : Seat A) (runner : Runner A) (x : StateT (Held A) (Dialogue A) α) :
    SessionM A σ η (Option (α × Held A)) := do
  match ← play t h seat (x.run { runner, busy := seat.device.busy }) with
  | none => return none
  | some (a, held) =>
    setDevice seat.name { seat.device with busy := held.busy }
    return some (a, held)

end Session

end DebugLink
