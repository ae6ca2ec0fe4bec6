import DebugLink.Target

/-!
# A tap on the link

Wraps a target. The tap writes down every call, and can be told to spoil some: a fault names a
kind of call, how many of them to let pass, and how many to spoil. A spoiled call never reaches
the target.
-/

namespace DebugLink

/-- Kinds of call. -/
inductive CallKind where
  | read | write | readReg | writeReg | halt | resume | poll | addBreakpoint
  | removeBreakpoint | mmuEnabled
  deriving DecidableEq, Repr

/-- The kind of a call. -/
def Call.kind {A : Arch} : Call A → CallKind
  | .read .. => .read
  | .write .. => .write
  | .readReg _ => .readReg
  | .writeReg .. => .writeReg
  | .halt => .halt
  | .resume .. => .resume
  | .poll => .poll
  | .addBreakpoint .. => .addBreakpoint
  | .removeBreakpoint .. => .removeBreakpoint
  | .mmuEnabled => .mmuEnabled

/-- What a spoiled call answers. Any fault may be ordered for any kind of call. -/
inductive FaultAnswer where
  | refuse (e : TargetError)
  /-- The state that a poll seems to see. -/
  | state (s : ExecState)
  /-- "Could not be done", from a call that sets or removes a breakpoint. -/
  | declined
  deriving DecidableEq, Repr

/-- The answer to a given call; one that does not suit the call is a plain refusal. -/
def FaultAnswer.answer (f : FaultAnswer) {A : Arch} (c : Call A) :
    Except TargetError c.Answer :=
  match f, c with
  | .refuse e, _ => .error e
  | .state s, .poll => .ok s
  | .declined, .addBreakpoint .. => .ok false
  | .declined, .removeBreakpoint .. => .ok false
  | _, _ => .error .nonFatal

/-- An order to spoil calls. -/
structure Fault where
  kind : CallKind
  answer : FaultAnswer
  /-- Calls to let pass first. -/
  skip : Nat := 0
  /-- Calls to spoil then. -/
  times : Nat := 1
  deriving DecidableEq, Repr

/-- What becomes of a call of the given kind: the answer if it is spoiled, and the orders that
    are left. Orders are looked at in turn; one that lets the call pass leaves it to the
    next. -/
def Fault.fire (kind : CallKind) : List Fault → Option FaultAnswer × List Fault
  | [] => (none, [])
  | f :: rest =>
    if f.kind = kind ∧ f.skip = 0 ∧ 0 < f.times then
      (some f.answer, { f with times := f.times - 1 } :: rest)
    else
      let f := if f.kind = kind then { f with skip := f.skip - 1 } else f
      match fire kind rest with
      | (answer, rest) => (answer, f :: rest)

/-- A call as the tap wrote it down. -/
structure TappedCall (A : Arch) where
  call : Call A
  spoiled : Bool := false

/-- A target's state behind a tap. -/
structure Tap (A : Arch) (σ : Type) where
  inner : σ
  faults : List Fault := []
  /-- Calls that were written down and not yet collected. -/
  calls : Array (TappedCall A) := #[]

/-- A target behind a tap. -/
def Target.tapped {A : Arch} {σ : Type} (t : Target A σ) : Target A (Tap A σ) where
  perform := fun c s =>
    match s with
    | ⟨inner, faults, calls⟩ =>
      match Fault.fire c.kind faults with
      | (some f, faults) => ⟨f.answer c, ⟨inner, faults, calls.push ⟨c, true⟩⟩, []⟩
      | (none, faults) =>
        match t.perform c inner with
        | ⟨answer, inner, notes⟩ => ⟨answer, ⟨inner, faults, calls.push ⟨c, false⟩⟩, notes⟩
  endian := fun s => t.endian s.inner
  hasBreakpoints := fun s => t.hasBreakpoints s.inner
  hasMmu := fun s => t.hasMmu s.inner

end DebugLink
