import DebugLink.Arch.Plain
import DebugLink.Endian
import DebugLink.Sim.Region
import DebugLink.Sim.RegisterFile

/-!
# The core of the simulated target

Memory and registers as the programs on the target see them. Programs only touch memory that
exists; elsewhere a load gives zeros and a store does nothing.
-/

namespace DebugLink.Sim

/-- An address or a word of the simulated target. -/
abbrev Word := BitVec 32

/-- Memory and registers. -/
structure Core where
  memory : Memory
  regs : RegisterFile PlainReg 32 := {}
  endian : Endian := .little

namespace Core

/-- The `len` bytes at `a`. -/
def load (c : Core) (a : Word) (len : Nat) : List UInt8 :=
  match c.memory.load? a.toNat len with
  | some bytes => bytes.val
  | none => List.replicate len 0

/-- Puts bytes at `a`. -/
def store : Core → Word → List UInt8 → Core
  | ⟨memory, regs, endian⟩, a, data => ⟨memory.store a.toNat data, regs, endian⟩

/-- The word at `a`. -/
def loadWord (c : Core) (a : Word) : Word :=
  BitVec.ofNat 32 (c.endian.value (c.load a 4))

/-- Puts a word at `a`. -/
def storeWord (c : Core) (a value : Word) : Core :=
  c.store a (c.endian.encode 4 value.toNat)

/-- Copies `len` bytes. -/
def copy (c : Core) (src dst : Word) (len : Nat) : Core :=
  c.store dst (c.load src len)

/-- Gives a register a value. -/
def setReg (c : Core) (reg : PlainReg) (value : Word) : Core :=
  { c with regs := c.regs.set reg value }

end Core

end DebugLink.Sim
