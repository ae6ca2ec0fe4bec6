import DebugLink.Endian
import DebugLink.Sim.Region
import DebugLink.Sim.RegisterFile
import DebugLink.Target

/-!
# Flat targets

One region of memory, all registers, and no code: what happens while such a target runs is
planned beforehand. A resume takes the next plan; after as many polls as the plan says the
planned writes happen at once and the target halts. Works for every architecture.
-/

namespace DebugLink

/-- What happens during a run of a flat target. -/
structure Flat.Plan (A : Arch) where
  /-- Polls that find the target running. -/
  polls : Nat := 0
  /-- Where it halts. -/
  pc : A.Addr
  /-- Bytes and where they are put. The region may reach past the last address. -/
  memory : List (Nat × List UInt8) := []
  regs : List (A.Reg × A.Addr) := []

/-- What a flat target has besides memory and registers. -/
structure Flat.Control (A : Arch) where
  /-- Accesses to memory must lie on multiples of this many bytes. -/
  align : Nat := 1
  endian : Endian := .little
  state : ExecState := .halted
  breakpoints : List A.Addr := []
  /-- Plans for runs to come. -/
  plans : List (Flat.Plan A) := []
  /-- The plan of the present run. -/
  plan : Option (Flat.Plan A) := none

/-- A target with one region of memory. -/
structure Flat (A : Arch) where
  region : Region
  regs : RegisterFile A.Reg A.width := {}
  control : Flat.Control A := {}

namespace Flat

variable {A : Arch}

/-- Why an access to memory is refused, if it is. -/
def refusal? (region : Region) (align : Nat) (a len : Nat) : Option TargetError :=
  if a % align ≠ 0 then some .unaligned
  else if region.Covers a len then none
  else some (.errno 14)

/-- Puts bytes into the region, as far as they lie in it. -/
def storeInto (region : Region) (a : Nat) (data : List UInt8) : Region :=
  if region.Covers a data.length then region.store a data else region

/-- The bytes at `a`, seen from outside. -/
def peek? (s : Flat A) (a len : Nat) : Option (List UInt8) :=
  (s.region.load? a len).map (·.val)

/-- Puts bytes at `a` from outside, if there is memory. -/
def poke : Flat A → Nat → List UInt8 → Flat A
  | ⟨region, regs, k⟩, a, data => ⟨storeInto region a data, regs, k⟩

/-- Carries out what is left of a plan. -/
def carryOut (s : Flat A) (plan : Plan A) : Flat A where
  region := plan.memory.foldl (fun r w => storeInto r w.1 w.2) s.region
  regs := (plan.regs.foldl (fun f e => f.set e.1 e.2) s.regs).set A.pc plan.pc
  control := { s.control with state := .halted, plan := none }

/-- One look at the target. -/
def step (s : Flat A) : Flat A :=
  match s.control.plan with
  | none => s
  | some plan =>
    match plan.polls with
    | 0 => s.carryOut plan
    | polls + 1 => { s with control := { s.control with plan := some { plan with polls } } }

/-- Lets the target go, at an address or where it stopped, with the next plan. -/
def resume (s : Flat A) (address : Option A.Addr) (flags : ResumeFlags) : Flat A :=
  { s with
    regs := match address with
      | some pc => s.regs.set A.pc pc
      | none => s.regs
    control := { s.control with
      plan := s.control.plans.head?
      plans := s.control.plans.tail
      state := if flags.debugExecution then .debugRunning else .running } }

/-- What a flat target answers to a call. -/
def perform : (c : Call A) → Flat A → Reply (Flat A) (Except TargetError c.Answer)
  | .read address len, s =>
    match refusal? s.region s.control.align address.toNat len with
    | some e => ⟨.error e, s, []⟩
    | none =>
      match s.region.load? address.toNat len with
      | some bytes => ⟨.ok bytes, s, []⟩
      | none => ⟨.error (.errno 14), s, []⟩
  | .write address data, ⟨region, regs, k⟩ =>
    match refusal? region k.align address.toNat data.length with
    | some e => ⟨.error e, ⟨region, regs, k⟩, []⟩
    | none => ⟨.ok (), ⟨region.store address.toNat data, regs, k⟩, []⟩
  | .readReg reg, s => ⟨.ok (s.regs.get reg), s, []⟩
  | .writeReg reg value, s => ⟨.ok (), { s with regs := s.regs.set reg value }, []⟩
  | .halt, s =>
    ⟨.ok (), { s with control := { s.control with state := .halted, plan := none } }, []⟩
  | .resume address flags, s =>
    if s.control.state = .halted then ⟨.ok (), s.resume address flags, []⟩
    else ⟨.error (.fatal "resumed while not halted"), s, []⟩
  | .poll, s =>
    let s := s.step
    ⟨.ok s.control.state, s, []⟩
  | .addBreakpoint address _, s =>
    if s.control.breakpoints.contains address then ⟨.ok false, s, []⟩
    else
      ⟨.ok true,
        { s with control :=
            { s.control with breakpoints := s.control.breakpoints ++ [address] } }, []⟩
  | .removeBreakpoint address _, s =>
    if s.control.breakpoints.contains address then
      ⟨.ok true,
        { s with control :=
            { s.control with breakpoints := s.control.breakpoints.erase address } }, []⟩
    else ⟨.ok false, s, []⟩
  | .mmuEnabled, s => ⟨.ok false, s, []⟩

/-- A flat target as a target. -/
def target : Target A (Flat A) where
  perform := perform
  endian := fun s => s.control.endian
  hasBreakpoints := fun _ => true

end Flat

end DebugLink
