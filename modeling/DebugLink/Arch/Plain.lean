import DebugLink.Arch
import DebugLink.Text.Decimal

/-!
# Plain cores

Cores without rules of their own: thirteen general registers, a stack pointer, a link
register, a program counter and a status word, for any width of address. `simCore` is the
32-bit one that the simulated target has; there, entry and exit must lie on words, and an
image may name registers that are forced to a value.
-/

namespace DebugLink

/-- A register of a plain core. -/
inductive PlainReg where
  | r (n : Fin 13)
  | sp | lr | pc | xpsr
  deriving DecidableEq, Repr

namespace PlainReg

/-- How a register is shown. -/
def name : PlainReg → String
  | .r n => "R(" ++ toString n.val ++ ")"
  | .sp => "Sp"
  | .lr => "Lr"
  | .pc => "Pc"
  | .xpsr => "Xpsr"

/-- The register of a name; the number of a general register is read leniently. -/
def ofName? (s : String) : Option PlainReg :=
  if s = "sp" then some .sp
  else if s = "lr" then some .lr
  else if s = "pc" then some .pc
  else if s = "xpsr" then some .xpsr
  else
    match s.toList with
    | 'r' :: digits => do
      let n ← Text.lenientDecimal? digits
      if h : n < 13 then some (.r ⟨n, h⟩) else none
    | _ => none

end PlainReg

/-- A plain core with addresses of `width` bits, which takes every image. -/
abbrev plainCore (width : Nat) : Arch where
  width := width
  Reg := PlainReg
  Kind := Nat
  kindName := toString
  Info := Unit
  defaultInfo := ()
  pc := .pc
  reg? := PlainReg.ofName?
  regName := PlainReg.name
  exitKind := fun _ => 1

/-- The core of the simulated target. Its images carry the registers to force. -/
abbrev simCore : Arch where
  width := 32
  Reg := PlainReg
  Kind := Nat
  kindName := toString
  Info := List (PlainReg × BitVec 32)
  defaultInfo := []
  pc := .pc
  reg? := PlainReg.ofName?
  regName := PlainReg.name
  exitKind := fun _ => 4
  check := fun image =>
    if image.entry.toNat % 4 ≠ 0 then .error .misalignedEntry
    else if image.exit.toNat % 4 ≠ 0 then .error .misalignedExit
    else .ok ()
  context := id

end DebugLink
