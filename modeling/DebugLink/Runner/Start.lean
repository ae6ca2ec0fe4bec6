import DebugLink.Runner.Basic

/-!
# Starting an algorithm

Registers are saved before anything is changed, then parameters, context and the exit
breakpoint are put in place, then the core is let go. If anything fails on the way, what was
changed so far is undone as far as it can be.
-/

namespace DebugLink.Runner

variable {A : Arch}

/-- Saves registers, each of them once. -/
def saveRegs : List A.Reg → RunM A Unit
  | [] => return ()
  | reg :: rest => do
    if !(← get).runner.saved.any (·.1 = reg) then
      let value ← call (.readReg reg)
      update fun r => { r with saved := r.saved ++ [(reg, value)] }
    saveRegs rest

/-- Writes the memory parameters that the algorithm is handed. -/
def writeMem : List (MemParam A.width) → Link A Unit
  | [] => return ()
  | p :: rest => do
    if p.direction.isInput then
      writeBuffer p.address p.data
    writeMem rest

/-- Writes the register parameters that the algorithm is handed. -/
def writeRegs : List (RegParam A.width × A.Reg) → Link A Unit
  | [] => return ()
  | (p, reg) :: rest => do
    if p.direction.isInput then
      call (.writeReg reg p.value)
    writeRegs rest

/-- Sets the registers that the architecture asks for. -/
def writeContext : List (A.Reg × A.Addr) → Link A Unit
  | [] => return ()
  | (reg, value) :: rest => do
    call (.writeReg reg value)
    writeContext rest

/-- Sets the exit breakpoint, unless the algorithm halts on its own. -/
def arm : RunM A Unit := do
  let r := (← get).runner
  let exit := r.image.exit
  if exit ≠ 0 then
    if !(← feature .breakpoints) then
      throw (.unsupported "breakpoints")
    if !(← call (.addBreakpoint exit r.exitKind)) then
      note (.exitNotArmed exit.toNat)
      throw (.unsupported "breakpoints")
    update ({ · with breakpoint := some exit })

/-- Brings everything into place for the algorithm. -/
def load : RunM A Unit := do
  update ({ · with saved := [] })
  let r := (← get).runner
  saveRegs r.touched
  writeMem r.image.mem
  writeRegs (r.image.regs.zip r.regs)
  writeContext (A.context r.image.info)
  arm

/-- Brings everything into place and lets the core go. -/
def launch : RunM A Unit := do
  load
  let image := (← get).runner.image
  note (.starting image.entry.toNat image.exit.toNat)
  call (.resume (some image.entry) .all)

/-- Starts the algorithm. The target must be halted and not busy. -/
def start : RunM A Unit := do
  let h ← get
  if h.busy then
    note .alreadyRunning
    throw .alreadyRunning
  if h.runner.state.isActive then
    throw .alreadyRunning
  requireHalted (A := A)
  match ← outcome launch with
  | .ok () =>
    modify fun h => { runner := { h.runner with state := .started }, busy := true }
  | .error e =>
    let _ ← outcome disarm
    let _ ← outcome restoreContext
    throw e

end DebugLink.Runner
