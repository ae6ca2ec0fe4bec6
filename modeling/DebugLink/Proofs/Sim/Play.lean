import DebugLink.Proofs.Play
import DebugLink.Proofs.Sim.Memory
import DebugLink.Sim.Basic
import DebugLink.Sim.Hosts

/-!
# The simulated target and the manual host

One rule for each access, with the step that the program makes on the way.  Of what the target
has besides memory and registers, `Status` is the part that matters; the rest counts accesses.
-/

namespace DebugLink

open Environment

variable {α : Type}

/-- On the simulated target and the manual host, `d` ends in `Q`. -/
abbrev Sim.Yields (d : Dialogue simCore α) (Q : α → Sim × ManualHost → Prop)
    (w : Sim × ManualHost) : Prop :=
  (played Sim.target ManualHost.host).wp (fun _ => True) d Q w

namespace Sim

/-- What the target has besides memory and registers, as far as it matters. -/
structure Status where
  state : ExecState
  program : Option Program
  programs : List (Word × Program)
  breakpoints : List Word
  hasBreakpoints : Bool
  failWrites : Bool

/-- The part of it that matters. -/
def status (x : Sim) : Status where
  state := x.control.state
  program := x.control.program
  programs := x.control.programs
  breakpoints := x.control.breakpoints
  hasBreakpoints := x.control.hasBreakpoints
  failWrites := x.control.failWrites

/-- The last program is at work, for the debugger. -/
def Status.running (p : Program) (breakpoints : List Word) : Status where
  state := .debugRunning
  program := some p
  programs := []
  breakpoints := breakpoints
  hasBreakpoints := true
  failWrites := false

/-- The last program has come to its end. -/
def Status.stopped (breakpoints : List Word) : Status where
  state := .halted
  program := none
  programs := []
  breakpoints := breakpoints
  hasBreakpoints := true
  failWrites := false

/-- The target with one more read counted. -/
def counted (x : Sim) : Sim :=
  { x with control.reads := x.control.reads + 1 }

/-- The target behind a write. -/
def wrote (x : Sim) (a : Word) (data : List UInt8) : Sim :=
  { core := x.core.store a data, control := { x.control with writes := x.control.writes + 1 } }

variable {x : Sim} {y : ManualHost} {p p' : Program} {core : Core} {bps : List Word}

/-! ## Steps -/

theorem Status.isRunning (hs : x.status = .running p bps) : x.control.isRunning = true := by
  have hstate : x.control.state = .debugRunning := congrArg Status.state hs
  rw [Control.isRunning, hstate]
  rfl

/-- A program that goes on. -/
theorem step_stay (hs : x.status = .running p bps) (hstep : p.step x.core = (.stay, p', core)) :
    x.step.core = core ∧ x.step.status = .running p' bps := by
  obtain ⟨c, k⟩ := x
  have hrun : k.isRunning = true := Status.isRunning hs
  have hp : k.program = some p := congrArg Status.program hs
  have hstep : p.step c = (.stay, p', core) := hstep
  have hx : step ⟨c, k⟩ = ⟨core, { k with steps := k.steps + 1, program := some p' }⟩ := by
    simp only [step, hp, hrun, if_true, hstep]
  rw [hx]
  exact ⟨rfl, congrArg (fun s : Status => { s with program := some p' }) hs⟩

/-- A program that exits where a breakpoint is set. -/
theorem step_exit {pc : Word} (hs : x.status = .running p bps)
    (hstep : p.step x.core = (.exit pc, p', core)) (hb : pc ∈ bps) :
    x.step.core = core.setReg .pc pc ∧ x.step.status = .stopped bps := by
  obtain ⟨c, k⟩ := x
  have hrun : k.isRunning = true := Status.isRunning hs
  have hp : k.program = some p := congrArg Status.program hs
  have hstep : p.step c = (.exit pc, p', core) := hstep
  have hbps : k.breakpoints = bps := congrArg Status.breakpoints hs
  have hb : k.breakpoints.contains pc = true := List.contains_iff_mem.mpr (hbps ▸ hb)
  have hx : step ⟨c, k⟩ = ⟨core.setReg .pc pc,
      { k with steps := k.steps + 1, state := .halted, program := none }⟩ := by
    simp only [step, hp, hrun, if_true, hstep, hb]
  rw [hx]
  exact ⟨rfl, congrArg (fun s : Status => { s with state := .halted, program := none }) hs⟩

/-- A core that is halted stays where it is. -/
theorem step_halted (hs : x.status.state = .halted) : x.step = x := by
  obtain ⟨c, k⟩ := x
  have hrun : k.isRunning = false := by
    rw [Control.isRunning, show k.state = .halted from hs]
    rfl
  rw [step]
  cases k.program with
  | none => rfl
  | some p => rw [hrun]; rfl

/-! ## Accesses -/

variable {Q : α → Sim × ManualHost → Prop} {a : Word} {n : Nat}

/-- What memory holds behind the write of a word. -/
theorem contents_wrote_word {v : Nat} (hm : x.core.Maps a.toNat 4) :
    (x.wrote a (x.core.endian.encode 4 v)).core.contents =
      x.core.contents.store a.toNat (x.core.endian.encode 4 v) := by
  refine Core.contents_store ?_
  rw [Endian.length_encode]
  exact hm

/-- A read lets the program work first. -/
theorem play_read (hm : x.counted.step.core.Maps a.toNat n) : ∃ bytes : Bytes n,
    play Sim.target ManualHost.host (.call (.read a n)) (x, y) =
      (.ok bytes, (x.counted.step, y)) ∧
      bytes.val = x.counted.step.core.contents.slice a.toNat n := by
  obtain ⟨bytes, hload, hval⟩ := Memory.load?_eq hm.apart hm.covers
  refine ⟨bytes, ?_, hval⟩
  simp only [play, Sim.target, perform]
  rw [show step ⟨x.core, { x.control with reads := x.control.reads + 1 }⟩ =
    x.counted.step from rfl, hload]

theorem play_write {data : List UInt8} (hw : x.status.failWrites = false)
    (hm : x.core.Maps a.toNat data.length) :
    play Sim.target ManualHost.host (.call (.write a data)) (x, y) =
      (.ok (), (x.wrote a data, y)) := by
  have hok : ¬ (x.control.failWrites = true ∨
      (!x.core.memory.covers a.toNat data.length) = true) := by
    rw [show x.control.failWrites = false from hw, hm.covers]
    decide
  simp only [play, Sim.target, perform]
  rw [if_neg hok]
  rfl

/-- Reading a word. -/
theorem yields_readWord {Q : Except Error Nat → Sim × ManualHost → Prop}
    (hm : x.counted.step.core.Maps a.toNat 4)
    (hn : Q (.ok (x.counted.step.core.contents.word x.counted.step.core.endian a.toNat))
      (x.counted.step, y)) :
    Yields (readWord (A := simCore) .full a).run Q (x, y) := by
  obtain ⟨bytes, hplay, hval⟩ := play_read hm
  refine plays_readWord hplay ?_
  rw [Contents.word, ← hval] at hn
  exact hn

/-- Writing a word. -/
theorem yields_writeWord {Q : Except Error Unit → Sim × ManualHost → Prop} {v : Nat}
    (hw : x.status.failWrites = false) (hm : x.core.Maps a.toNat 4)
    (hn : Q (.ok ()) (x.wrote a (x.core.endian.encode 4 v), y)) :
    Yields (writeWord (A := simCore) .full a v).run Q (x, y) := by
  refine plays_writeWord (play_write hw ?_) hn
  rw [Endian.length_encode]
  exact hm

/-- Reading a buffer. -/
theorem yields_readBuffer {Q : Except Error (Bytes n) → Sim × ManualHost → Prop}
    (hpos : 0 < n) (hfits : a.toNat + n < 0x100000000)
    (hm : x.counted.step.core.Maps a.toNat n)
    (hn : ∀ bytes : Bytes n, bytes.val = x.counted.step.core.contents.slice a.toNat n →
      Q (.ok bytes) (x.counted.step, y)) :
    Yields (readBuffer (A := simCore) a n).run Q (x, y) := by
  obtain ⟨bytes, hplay, hval⟩ := play_read hm
  exact plays_readBuffer hpos (Or.inr (by simp; omega)) hplay (hn bytes hval)

/-- Writing a buffer. -/
theorem yields_writeBuffer {Q : Except Error Unit → Sim × ManualHost → Prop}
    {data : List UInt8} (hne : data ≠ []) (hfits : a.toNat + data.length < 0x100000000)
    (hw : x.status.failWrites = false) (hm : x.core.Maps a.toNat data.length)
    (hn : Q (.ok ()) (x.wrote a data, y)) :
    Yields (writeBuffer (A := simCore) a data).run Q (x, y) :=
  plays_writeBuffer hne (Or.inr (by simp; omega)) (play_write hw hm) hn

end Sim

end DebugLink
