import DebugLink.Arch
import DebugLink.Text.Decimal

/-!
# RISC-V

The 32-bit integer cores. A register goes by its number or by its name in the calling
convention. Code with compressed instructions lies on halfwords, other code on words, and the
breakpoint is as long as the shortest instruction.
-/

namespace DebugLink.RiscV

/-- A core register. -/
inductive Reg where
  | gpr (n : Fin 32)
  | pc
  deriving DecidableEq, Repr

/-- The calling convention's names of the integer registers, by number. -/
def abiNames : List String :=
  ["zero", "ra", "sp", "gp", "tp", "t0", "t1", "t2", "s0", "s1", "a0", "a1", "a2", "a3", "a4",
    "a5", "a6", "a7", "s2", "s3", "s4", "s5", "s6", "s7", "s8", "s9", "s10", "s11", "t3", "t4",
    "t5", "t6"]

namespace Reg

/-- How a register is shown. -/
def name : Reg → String
  | .gpr n => "Gpr(" ++ toString n.val ++ ")"
  | .pc => "Pc"

/-- The integer register of number `n`. -/
def ofNumber? (n : Nat) : Option Reg :=
  if h : n < 32 then some (.gpr ⟨n, h⟩) else none

/-- The register of a name: `pc`, the frame pointer, a name of the calling convention, or `x`
    and a number. -/
def ofName? (s : String) : Option Reg :=
  if s = "pc" then some .pc
  else if s = "fp" then some (.gpr 8)
  else
    match abiNames.findIdx? (· = s) with
    | some n => ofNumber? n
    | none =>
      match s.toList with
      | 'x' :: digits => do ofNumber? (← Text.canonicalDecimal? digits)
      | _ => none

end Reg

/-- What an image says about its code. -/
structure Code where
  /-- There may be 16-bit instructions. -/
  compressed : Bool := false
  deriving DecidableEq, Repr

/-- Instructions lie on multiples of this many bytes. -/
def Code.alignment (c : Code) : Nat :=
  if c.compressed then 2 else 4

end DebugLink.RiscV

namespace DebugLink

/-- The 32-bit RISC-V cores. -/
abbrev riscV32 : Arch where
  width := 32
  Reg := RiscV.Reg
  Kind := Nat
  kindName := toString
  Info := RiscV.Code
  defaultInfo := {}
  pc := .pc
  reg? := RiscV.Reg.ofName?
  regName := RiscV.Reg.name
  exitKind := RiscV.Code.alignment
  check := fun image =>
    if image.entry.toNat % image.info.alignment ≠ 0 then .error .misalignedEntry
    else if image.exit.toNat % image.info.alignment ≠ 0 then .error .misalignedExit
    else .ok ()

end DebugLink
