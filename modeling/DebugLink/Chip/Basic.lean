import DebugLink.Arch.CortexM
import DebugLink.Chip.Loader
import DebugLink.Sim.RegisterFile
import DebugLink.Target

/-!
# An emulated chip

A Cortex-M chip with RAM and flash. Of its code only the flash loader is carried out: code that
begins with a certain trap instruction, followed by the number of the service, stands for it.
Any other code spins. The loader works a little whenever the host looks at the chip.
-/

namespace DebugLink

/-- What the chip has besides memory. -/
structure Chip.Control where
  regs : RegisterFile CortexM.Reg 32
  state : ExecState := .halted
  breakpoints : List Chip.Word := []
  /-- The loader, while it runs. -/
  loader : Option Chip.Loader := none

/-- The emulated chip. -/
structure Chip where
  store : Chip.Store
  control : Chip.Control

namespace Chip

/-- A halted chip after a reset: empty RAM, erased flash. -/
def fresh : Chip where
  store := { ram := .filled ramBase ramSize 0, flash := .filled flashBase flashSize 0xff }
  control :=
    { regs := { entries :=
        [(.sp, BitVec.ofNat 32 (ramBase + ramSize)), (.lr, 0xffffffff),
          (.pc, BitVec.ofNat 32 flashBase), (.xpsr, CortexM.thumbBit),
          (.msp, BitVec.ofNat 32 (ramBase + ramSize))] } }

/-- The bytes at `a`, seen from outside: nothing moves. -/
def peek? (s : Chip) (a len : Nat) : Option (List UInt8) :=
  (s.store.load? a len).map (·.val)

/-- Puts bytes at `a` from outside, in RAM or flash. -/
def poke : Chip → Nat → List UInt8 → Chip
  | ⟨store, k⟩, a, data => ⟨store.poke a data, k⟩

/-- The code that stands for the loader: the trap, the number of the service, and, eight bytes
    in, the exit point. -/
def loaderStub : List UInt8 :=
  [0xab, 0xbe, 0x00, 0xbf, 0x01, 0x00, 0x00, 0x00, 0x00, 0xbe, 0x00, 0xbf]

/-- Where the exit point lies in the stub. -/
def loaderExit : Word := 8

/-- The instruction that calls a service. -/
def trapCode : List UInt8 := [0xab, 0xbe]

/-- The service that programs flash. -/
def loaderService : Nat := 1

/-- Looks at the code under the program counter: the loader, if it stands there. -/
def trap (s : Store) (regs : RegisterFile CortexM.Reg 32) : Option Loader × List Note :=
  let pc := regs.get .pc
  match s.load? pc.toNat 8 with
  | none => (none, [])
  | some code =>
    if code.val.take 2 = trapCode then
      let service := littleValue (code.val.drop 4)
      if service = loaderService then
        (some
          { count := regs.get (.gpr 1), ring := regs.get (.gpr 2)
            ringEnd := regs.get (.gpr 3), dest := regs.get (.gpr 4)
            exit := pc + loaderExit }, [])
      else (none, [.unknownService service pc.toNat])
    else (none, [])

/-- What a look at the chip led to. -/
structure Stepped where
  /-- Did the core turn out to be halted? -/
  halted : Bool
  chip : Chip
  notes : List Note := []

/-- Halts the core if it stands on a breakpoint. -/
def settle (store : Store) (k : Control) (notes : List Note) : Stepped :=
  if k.breakpoints.contains (k.regs.get .pc) then
    ⟨true, ⟨store, { k with state := .halted }⟩, notes⟩
  else ⟨false, ⟨store, k⟩, notes⟩

/-- Lets the core work a little. -/
def step : Chip → Stepped
  | ⟨store, k⟩ =>
    if k.state = .running then
      let (found, notes) :=
        match k.loader with
        | some l => (some l, [])
        | none => trap store k.regs
      match found with
      | none => settle store k notes
      | some l =>
        match l.burst burstLength store with
        | ⟨some status, l, store, more⟩ =>
          let regs := (k.regs.set (.gpr 0) status).set .pc l.exit
          settle store { k with regs, loader := none }
            (notes ++ more ++ [.loaderExited status.toNat])
        | ⟨none, l, store, more⟩ =>
          let regs := (k.regs.set (.gpr 1) l.count).set (.gpr 4) l.dest
          settle store { k with regs, loader := some l } (notes ++ more)
    else ⟨k.state = .halted, ⟨store, k⟩, []⟩

/-- Lets the core go, at an address or where it stopped. -/
def resume (k : Control) (address : Option Word) : Control :=
  match address with
  | some pc => { k with regs := k.regs.set .pc pc, loader := none, state := .running }
  | none => { k with state := .running }

/-- What the chip answers to a call. -/
def perform : (c : Call cortexM) → Chip → Reply Chip (Except TargetError c.Answer)
  | .read address len, s =>
    match (if s.control.state = .running then s.step else ⟨false, s, []⟩) with
    | ⟨_, s, notes⟩ =>
      match s.store.load? address.toNat len with
      | some bytes => ⟨.ok bytes, s, notes⟩
      | none => ⟨.error .nonFatal, s, notes⟩
  | .write address data, ⟨store, k⟩ =>
    if store.writable address.toNat data.length then
      ⟨.ok (), ⟨store.write address.toNat data, k⟩, []⟩
    else ⟨.error .nonFatal, ⟨store, k⟩, []⟩
  | .readReg reg, s => ⟨.ok (s.control.regs.get reg), s, []⟩
  | .writeReg reg value, ⟨store, k⟩ =>
    ⟨.ok (), ⟨store, { k with regs := k.regs.set reg value }⟩, []⟩
  | .halt, ⟨store, k⟩ => ⟨.ok (), ⟨store, { k with state := .halted }⟩, []⟩
  | .resume address flags, ⟨store, k⟩ =>
    if k.regs.get .xpsr &&& CortexM.thumbBit = 0 then
      ⟨.error (.fatal "resumed with xPSR.T clear"), ⟨store, k⟩, []⟩
    else
      let k := resume k address
      ⟨.ok (), ⟨store, k⟩, [.chipResumed (k.regs.get .pc).toNat flags.text]⟩
  | .poll, s =>
    match s.step with
    | ⟨_, s, notes⟩ => ⟨.ok s.control.state, s, notes⟩
  | .addBreakpoint address kind, ⟨store, k⟩ =>
    if kind = .thumb16 then
      ⟨.ok true, ⟨store, { k with breakpoints := k.breakpoints ++ [address] }⟩, []⟩
    else ⟨.ok false, ⟨store, k⟩, []⟩
  | .removeBreakpoint address _, ⟨store, k⟩ =>
    if k.breakpoints.contains address then
      ⟨.ok true, ⟨store, { k with breakpoints := k.breakpoints.erase address }⟩, []⟩
    else ⟨.ok false, ⟨store, k⟩, []⟩
  | .mmuEnabled, s => ⟨.ok false, s, []⟩

/-- The chip as a target. -/
def target : Target cortexM Chip where
  perform := perform
  hasBreakpoints := fun _ => true

end Chip

end DebugLink
