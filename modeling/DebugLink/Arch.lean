import DebugLink.Image

/-!
# Architectures

Nothing else in the library knows a register layout. What it needs to know about a core (the
width of an address, how registers are named, which breakpoint catches the end of an
algorithm, which registers have to be set before one starts) is one record, `Arch`.
-/

namespace DebugLink

/-- What the library needs to know about a core. -/
structure Arch where
  /-- Bits of an address, and of a register. -/
  width : Nat
  Reg : Type
  [regEq : DecidableEq Reg]
  /-- Kinds of breakpoint. -/
  Kind : Type
  /-- How a kind of breakpoint is shown. -/
  kindName : Kind → String
  /-- The architecture's own description of an algorithm. -/
  Info : Type
  /-- What an image says about itself unless told otherwise. -/
  defaultInfo : Info
  /-- The program counter. -/
  pc : Reg
  /-- The register of a name. -/
  reg? : String → Option Reg
  /-- How a register is shown. -/
  regName : Reg → String
  /-- The kind of breakpoint that catches the end of an algorithm. -/
  exitKind : Info → Kind
  /-- Images that the core cannot execute are refused here. -/
  check : Image width Info → Except ImageError Unit := fun _ => .ok ()
  /-- Registers that must hold a given value before an algorithm starts, in the order in which
      they are set. They are saved and restored like any register that is touched. -/
  context : Info → List (Reg × BitVec width) := fun _ => []

attribute [instance] Arch.regEq

namespace Arch

variable (A : Arch)

/-- An address of the target; register values have the same width. -/
abbrev Addr : Type := BitVec A.width

/-- An image for this architecture. -/
abbrev Img : Type := Image A.width A.Info

/-- The address `n`, if the core has one. -/
def addr? (n : Nat) : Option A.Addr :=
  if n ≤ (BitVec.allOnes A.width).toNat then some (BitVec.ofNat A.width n) else none

/-- An address is at the number it was made from. -/
theorem toNat_of_addr? {n : Nat} {a : A.Addr} (h : A.addr? n = some a) : a.toNat = n := by
  unfold addr? at h
  split at h
  · next hn =>
    injection h with h
    subst h
    rw [BitVec.toNat_allOnes] at hn
    have hpos := Nat.two_pow_pos A.width
    exact Nat.mod_eq_of_lt (by omega)
  · exact absurd h (by simp)

/-- Does a block of `len` bytes that starts at `a` end inside the address space? An empty
    block does. -/
def Fits {w : Nat} (a : BitVec w) (len : Nat) : Prop :=
  len = 0 ∨ a.toNat + (len - 1) ≤ (BitVec.allOnes w).toNat

instance {w : Nat} (a : BitVec w) (len : Nat) : Decidable (Fits a len) :=
  inferInstanceAs (Decidable (_ ∨ _))

end Arch

/-- Cores with thirteen general registers write their numbers as literals. -/
instance neZero_thirteen : @NeZero Nat Zero.ofOfNat0 13 := ⟨by decide⟩

end DebugLink
