import DebugLink.Sim.Program
import DebugLink.Target

/-!
# The simulated target

RAM, flash, and a core that steps a program whenever the host looks at it: at every poll, and at
every read of memory while the core runs. Programs wait at their entry addresses until the core
is resumed there.
-/

namespace DebugLink

/-- What the simulated target has besides memory and registers. -/
structure Sim.Control where
  state : ExecState := .halted
  /-- Programs that wait to be started, with their entry addresses. -/
  programs : List (Sim.Word × Sim.Program) := []
  /-- The program the core is at. -/
  program : Option Sim.Program := none
  breakpoints : List Sim.Word := []
  hasBreakpoints : Bool := true
  /-- Whether the memory management unit is on, if the target can tell. -/
  mmu : Option Bool := none
  failWrites : Bool := false
  reads : Nat := 0
  writes : Nat := 0
  steps : Nat := 0
  /-- Where, and how, the core was last resumed. -/
  lastResume : Option (Sim.Word × ResumeFlags) := none

/-- The simulated target. -/
structure Sim where
  core : Sim.Core
  control : Sim.Control := {}

namespace Sim

/-- First address of RAM. -/
def ramBase : Nat := 0x20000000

/-- Bytes of RAM. -/
def ramSize : Nat := 0x40000

/-- First address of flash. -/
def flashBase : Nat := 0x08000000

/-- Bytes of flash. -/
def flashSize : Nat := 0x200000

/-- A halted target with empty RAM, erased flash, and the stack pointer at the end of RAM. -/
def fresh : Sim where
  core :=
    { memory := [.filled ramBase ramSize 0, .filled flashBase flashSize 0xff]
      regs := { entries := [(.sp, BitVec.ofNat 32 (ramBase + ramSize))] } }

/-- The bytes at `a`, seen from outside: nothing moves. -/
def peek? (s : Sim) (a len : Nat) : Option (List UInt8) :=
  (s.core.memory.load? a len).map (·.val)

/-- Puts bytes at `a` from outside, if there is memory. -/
def poke : Sim → Nat → List UInt8 → Sim
  | ⟨⟨memory, regs, endian⟩, k⟩, a, data => ⟨⟨memory.store a data, regs, endian⟩, k⟩

/-- Is the core executing? -/
def Control.isRunning (k : Control) : Bool :=
  k.state = .running || k.state = .debugRunning

/-- Lets the core work a little: one step of its program. -/
def step : Sim → Sim
  | ⟨core, k⟩ =>
    match k.program with
    | none => ⟨core, k⟩
    | some program =>
      if k.isRunning then
        let k := { k with steps := k.steps + 1 }
        match program.step core with
        | (.stay, program, core) => ⟨core, { k with program := some program }⟩
        | (.exit pc, _, core) =>
          if k.breakpoints.contains pc then
            ⟨core.setReg .pc pc, { k with state := .halted, program := none }⟩
          else ⟨core.setReg .pc pc, { k with program := some .spin }⟩
        | (.halt pc, _, core) =>
          ⟨core.setReg .pc pc, { k with state := .halted, program := none }⟩
      else ⟨core, k⟩

/-- Lets the core go, at an address or where it stopped. The program that waits there, if any,
    is taken; the core spins otherwise. -/
def resume : Sim → Option Word → ResumeFlags → Sim
  | ⟨core, k⟩, address, flags =>
    let pc := address.getD (core.regs.get .pc)
    ⟨core.setReg .pc pc,
      { k with
        program := some (((k.programs.find? (·.1 = pc)).map (·.2)).getD .spin)
        programs := k.programs.eraseP (·.1 = pc)
        state := if flags.debugExecution then .debugRunning else .running
        lastResume := some (pc, flags) }⟩

/-- What the simulated target answers to a call. -/
def perform : (c : Call simCore) → Sim → Reply Sim (Except TargetError c.Answer)
  | .read address len, ⟨core, k⟩ =>
    match step ⟨core, { k with reads := k.reads + 1 }⟩ with
    | ⟨core, k⟩ =>
      match core.memory.load? address.toNat len with
      | some bytes => ⟨.ok bytes, ⟨core, k⟩, []⟩
      | none => ⟨.error .nonFatal, ⟨core, k⟩, []⟩
  | .write address data, ⟨core, k⟩ =>
    if k.failWrites ∨ !core.memory.covers address.toNat data.length then
      ⟨.error .nonFatal, ⟨core, k⟩, []⟩
    else ⟨.ok (), ⟨core.store address data, { k with writes := k.writes + 1 }⟩, []⟩
  | .readReg reg, s => ⟨.ok (s.core.regs.get reg), s, []⟩
  | .writeReg reg value, ⟨core, k⟩ =>
    if k.failWrites then ⟨.error .nonFatal, ⟨core, k⟩, []⟩
    else ⟨.ok (), ⟨core.setReg reg value, { k with writes := k.writes + 1 }⟩, []⟩
  | .halt, ⟨core, k⟩ => ⟨.ok (), ⟨core, { k with state := .halted, program := none }⟩, []⟩
  | .resume address flags, s =>
    if s.control.state = .halted then ⟨.ok (), s.resume address flags, []⟩
    else ⟨.error (.fatal "resumed while not halted"), s, []⟩
  | .poll, s =>
    let s := s.step
    ⟨.ok s.control.state, s, []⟩
  | .addBreakpoint address _, ⟨core, k⟩ =>
    if k.breakpoints.contains address then ⟨.ok false, ⟨core, k⟩, []⟩
    else ⟨.ok true, ⟨core, { k with breakpoints := k.breakpoints ++ [address] }⟩, []⟩
  | .removeBreakpoint address _, ⟨core, k⟩ =>
    if k.breakpoints.contains address then
      ⟨.ok true, ⟨core, { k with breakpoints := k.breakpoints.erase address }⟩, []⟩
    else ⟨.ok false, ⟨core, k⟩, []⟩
  | .mmuEnabled, s => ⟨.ok (s.control.mmu.getD false), s, []⟩

/-- The simulated target as a target. -/
def target : Target simCore Sim where
  perform := perform
  endian := fun s => s.core.endian
  hasBreakpoints := fun s => s.control.hasBreakpoints
  hasMmu := fun s => s.control.mmu.isSome

end Sim

end DebugLink
