import DebugLink.Runner.Start

/-!
# Waiting for an algorithm

The link has no completion signals, so waiting is polling. Whether the wait ever ends depends
on the host's clock; `patience` bounds the number of looks at the target, and a wait that uses
it up is `undecided` and has changed nothing.
-/

namespace DebugLink.Runner

variable {A : Arch}

/-- How a watch on the target ended. -/
inductive Watch where
  | halted
  | expired
  | shutdown
  | failed (e : TargetError)
  | undecided
  deriving DecidableEq, Repr

/-- Looks at the target until it has halted, the clock has reached `deadline`, or the host is
    shutting down. The target is looked at before the clock. -/
def watch (deadline interval : Nat) : Nat → Dialogue A Watch
  | 0 => return .undecided
  | patience + 1 => do
    match ← tryCall (A := A) .poll with
    | .error e => return .failed e
    | .ok .halted => return .halted
    | .ok _ =>
      if deadline ≤ (← host .now).toNat then return .expired
      host (.sleep interval)
      host .keepAlive
      if ← host .shutdownPending then return .shutdown
      watch deadline interval patience

/-- Reads memory parameters back. Those before a failure keep what was read. -/
def readMem : List (MemParam A.width) → Dialogue A (Except Error Unit × List (MemParam A.width))
  | [] => return (.ok (), [])
  | p :: rest => do
    if p.direction.isOutput then
      match ← (readBuffer p.address p.data.length).run with
      | .error e => return (.error e, p :: rest)
      | .ok bytes =>
        let (result, rest) ← readMem rest
        return (result, { p with data := bytes.val } :: rest)
    else
      let (result, rest) ← readMem rest
      return (result, p :: rest)

/-- Reads register parameters back. Those before a failure keep what was read. -/
def readRegs :
    List (RegParam A.width) → List A.Reg → Dialogue A (Except Error Unit × List (RegParam A.width))
  | p :: rest, reg :: regs => do
    if p.direction.isOutput then
      match ← tryCall (.readReg reg) with
      | .error e => return (.error (.ofTarget e), p :: rest)
      | .ok value =>
        let (result, rest) ← readRegs rest regs
        return (result, { p with value } :: rest)
    else
      let (result, rest) ← readRegs rest regs
      return (result, p :: rest)
  | params, _ => return (.ok (), params)

/-- Checks where the algorithm halted, and reads the output parameters back. -/
def collect : RunM A Unit := do
  disarm
  let r := (← get).runner
  let pc ← call (.readReg A.pc)
  if r.image.exit ≠ 0 ∧ pc ≠ r.image.exit then
    note (.unexpectedHalt pc.toNat r.image.exit.toNat)
    throw (.unexpectedExit pc.toNat)
  let (result, mem) ← readMem r.image.mem
  update ({ · with image.mem := mem })
  MonadExcept.ofExcept result
  let (result, regs) ← readRegs r.image.regs r.regs
  update ({ · with image.regs := regs })
  MonadExcept.ofExcept result

/-- Did a wait come to an end? -/
inductive Settled where
  | completed
  | undecided
  deriving DecidableEq, Repr

/-- What is left to do once the algorithm has halted. -/
def finish : RunM A Unit := do
  let collected ← outcome collect
  let restored ← outcome restoreContext
  match collected *> restored with
  | .ok () => modify fun h => { runner := { h.runner with state := .completed }, busy := false }
  | .error e =>
    modify fun h => { runner := { h.runner with state := .aborted }, busy := false }
    throw e

/-- Waits for at most `timeout` milliseconds until the algorithm halts, then collects its
    results. Unless it halted, the algorithm is left running and the target busy. -/
def wait (patience timeout : Nat) : RunM A Settled := do
  let r := (← get).runner
  if !r.state.isActive then
    throw .notRunning
  let deadline := min ((← host .now).toNat + timeout) 0xffffffffffffffff
  match ← watch (A := A) deadline r.pollInterval patience with
  | .undecided => return .undecided
  | .failed e => throw (.ofTarget e)
  | .shutdown => throw .interrupted
  | .expired =>
    note .timedOut
    update ({ · with state := .timedOut })
    throw .timedOut
  | .halted =>
    finish
    return .completed

/-- Starts the algorithm and waits for as long as the image says. -/
def run (patience : Nat) : RunM A Settled := do
  start
  wait patience (← get).runner.image.timeout

/-- Gives up on an algorithm: asks the core to halt, removes the exit breakpoint, and puts back
    the registers if the core has stopped. Every step is tried; the first failure counts. The
    target is released in any case. -/
def abandon : RunM A Unit := do
  let r := (← get).runner
  if !r.state.isActive then
    throw .notRunning
  note (.abandoning r.image.entry.toNat)
  let halted ← outcome (call (A := A) .halt)
  let disarmed ← outcome disarm
  let restored ←
    match ← tryCall (A := A) .poll with
    | .ok .halted => outcome restoreContext
    | _ => do
      update ({ · with saved := [] })
      pure (.ok ())
  modify fun h => { runner := { h.runner with state := .aborted }, busy := false }
  MonadExcept.ofExcept (halted *> disarmed *> restored)

end DebugLink.Runner
