import DebugLink.Dialogue

/-!
# Targets and hosts

A target answers calls and changes its state by them; a host answers requests. Given one of
each, a dialogue runs: `Dialogue.run` plays it against both and collects the notes that come
up on the way, those of the target among them.
-/

namespace DebugLink

/-- An answer, the state after it, and what was reported meanwhile. -/
structure Reply (σ α : Type) where
  answer : α
  state : σ
  notes : List Note := []

/-- A device at the far end of the link, with state `σ`. -/
structure Target (A : Arch) (σ : Type) where
  perform : (c : Call A) → σ → Reply σ (Except TargetError c.Answer)
  endian : σ → Endian := fun _ => .little
  hasBreakpoints : σ → Bool := fun _ => false
  hasMmu : σ → Bool := fun _ => false

/-- What a target answers to a question about itself. -/
def Target.feature {A : Arch} {σ : Type} (t : Target A σ) (s : σ) : (f : Feature) → f.Answer
  | .endian => t.endian s
  | .breakpoints => t.hasBreakpoints s
  | .mmu => t.hasMmu s

/-- The process around the library, with state `η`. -/
structure Host (η : Type) where
  perform : (r : HostRequest) → η → r.Answer × η

/-- The states of both sides, and the notes so far. -/
structure Scene (σ η : Type) where
  target : σ
  host : η
  notes : Array Note := #[]

/-- Plays a dialogue against a target and a host. -/
def Dialogue.run {A : Arch} {σ η α : Type} (t : Target A σ) (h : Host η) :
    Dialogue A α → Scene σ η → α × Scene σ η
  | .done a, s => (a, s)
  | .ask (.call c) next, ⟨x, y, notes⟩ =>
    match t.perform c x with
    | ⟨answer, x, more⟩ => (next answer).run t h ⟨x, y, notes ++ more⟩
  | .ask (.feature f) next, s => (next (t.feature s.target f)).run t h s
  | .ask (.host r) next, ⟨x, y, notes⟩ =>
    match h.perform r y with
    | (answer, y) => (next answer).run t h ⟨x, y, notes⟩
  | .ask (.note n) next, ⟨x, y, notes⟩ => (next ()).run t h ⟨x, y, notes.push n⟩

/-- Playing two dialogues one after the other. -/
@[simp] theorem Dialogue.run_bind {A : Arch} {σ η α β : Type} (t : Target A σ) (h : Host η)
    (d : Dialogue A α) (f : α → Dialogue A β) (s : Scene σ η) :
    (d >>= f).run t h s = (f (d.run t h s).1).run t h (d.run t h s).2 := by
  induction d generalizing s with
  | done a => rfl
  | ask op next ih =>
    cases op with
    | call c => exact ih _ _
    | feature q => exact ih _ _
    | host r => exact ih _ _
    | note n => exact ih _ _

end DebugLink
