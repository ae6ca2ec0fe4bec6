import DebugLink.Memory

/-!
# Runners

A runner is an image that was accepted, together with what the host has to remember while the
algorithm runs: the registers to put back, the breakpoint at the exit point, and how far things
have come. `Held` adds the guard that keeps algorithms on one target from nesting.
-/

namespace DebugLink

/-- How far a runner has come. -/
inductive RunState where
  /-- Accepted, not started yet. -/
  | loaded
  | started
  /-- Halted where it should; the output parameters hold the results. -/
  | completed
  /-- Did not halt before the last deadline. It may be waited for again, or abandoned. -/
  | timedOut
  /-- Stopped without completing. -/
  | aborted
  deriving DecidableEq, Repr

/-- The name of a state. -/
def RunState.name : RunState → String
  | .loaded => "Loaded"
  | .started => "Started"
  | .completed => "Completed"
  | .timedOut => "TimedOut"
  | .aborted => "Aborted"

/-- Is the algorithm on the target, as far as the host knows? -/
def RunState.isActive : RunState → Bool
  | .started | .timedOut => true
  | _ => false

/-- An image being run. -/
structure Runner (A : Arch) where
  image : A.Img
  /-- The registers that the image's parameters name, in the same order. -/
  regs : List A.Reg
  /-- Registers and the values to put back. -/
  saved : List (A.Reg × A.Addr) := []
  /-- The exit breakpoint, while it is set. -/
  breakpoint : Option A.Addr := none
  state : RunState := .loaded
  /-- Pause between two looks at the target, in milliseconds. -/
  pollInterval : Nat := 1

namespace Runner

/-- The registers of all names, or the first name that the architecture does not know. -/
def resolve (A : Arch) : List (RegParam A.width) → Except ImageError (List A.Reg)
  | [] => .ok []
  | p :: rest =>
    match A.reg? p.name with
    | none => .error (.unknownRegister p.name)
    | some reg => (resolve A rest).map (reg :: ·)

/-- Accepts or refuses an image. -/
def ofImage? {A : Arch} (image : A.Img) : Except ImageError (Runner A) := do
  if image.timeout = 0 then
    throw .zeroTimeout
  let regs ← resolve A image.regs
  A.check image
  return { image, regs }

/-- A runner of an accepted image has done nothing yet. -/
theorem eq_of_ofImage? {A : Arch} {image : A.Img} {r : Runner A} (h : ofImage? image = .ok r) :
    ∃ regs, resolve A image.regs = .ok regs ∧ A.check image = .ok () ∧ r = { image, regs } := by
  unfold ofImage? at h
  split at h
  · cases h
  · cases hregs : resolve A image.regs with
    | error e =>
        rw [hregs] at h
        cases h
    | ok regs =>
        rw [hregs] at h
        cases hcheck : A.check image with
        | error e =>
            simp only [hcheck] at h
            cases h
        | ok _ =>
            simp only [hcheck] at h
            cases h
            exact ⟨regs, rfl, rfl, rfl⟩

variable {A : Arch} (r : Runner A)

/-- The kind of the exit breakpoint. -/
def exitKind : A.Kind :=
  A.exitKind r.image.info

/-- All registers that a run touches: the program counter, the parameters, the context. -/
def touched : List A.Reg :=
  A.pc :: r.regs ++ (A.context r.image.info).map (·.1)

end Runner

/-- A runner, and whether its target is busy with an algorithm. -/
structure Held (A : Arch) where
  runner : Runner A
  busy : Bool

/-- Computations of a runner on its target. Changes made before a failure stay. -/
abbrev RunM (A : Arch) := ExceptT Error (StateT (Held A) (Dialogue A))

namespace Runner

variable {A : Arch}

/-- Changes the runner. -/
def update (f : Runner A → Runner A) : RunM A Unit :=
  modify fun h => { h with runner := f h.runner }

/-- Refuses to go on unless the target is halted. -/
def requireHalted : Link A Unit := do
  let state ← call (A := A) .poll
  if state ≠ .halted then
    note .notHalted
    throw .notHalted

/-- Removes the exit breakpoint if it is set. It is forgotten even if the removal fails. -/
def disarm : RunM A Unit := do
  let r := (← get).runner
  match r.breakpoint with
  | none => return ()
  | some address =>
    update ({ · with breakpoint := none })
    if ← feature .breakpoints then
      if !(← call (.removeBreakpoint address r.exitKind)) then
        note (.breakpointGone address.toNat)

/-- Writes registers, each of them even if others fail; the first failure counts. -/
def writeEach : List (A.Reg × A.Addr) → Dialogue A (Except Error Unit)
  | [] => return .ok ()
  | (reg, value) :: rest => do
    match ← tryCall (.writeReg reg value) with
    | .ok () => writeEach rest
    | .error e =>
      note (.registerNotRestored (A.regName reg))
      let _ ← writeEach rest
      return .error (.ofTarget e)

/-- Puts back all saved registers, and forgets them. -/
def restoreContext : RunM A Unit := do
  let saved := (← get).runner.saved
  update ({ · with saved := [] })
  MonadExcept.ofExcept (← writeEach saved)

end Runner

end DebugLink
