import DebugLink.Arch
import DebugLink.Text.Decimal

/-!
# Cortex-M

ARM cores that execute Thumb code alone. The Thumb bit of the status register has to be set
before an algorithm starts, or the core faults on its first instruction.
-/

namespace DebugLink.CortexM

/-- A core register. -/
inductive Reg where
  | gpr (n : Fin 13)
  | sp | lr | pc | xpsr | msp | psp | control
  deriving DecidableEq, Repr

namespace Reg

/-- How a register is shown. -/
def name : Reg → String
  | .gpr n => "Gpr(" ++ toString n.val ++ ")"
  | .sp => "Sp"
  | .lr => "Lr"
  | .pc => "Pc"
  | .xpsr => "Xpsr"
  | .msp => "Msp"
  | .psp => "Psp"
  | .control => "Control"

/-- The register of number `n`: the last three of the sixteen have names of their own. -/
def ofNumber? (n : Nat) : Option Reg :=
  if h : n < 13 then some (.gpr ⟨n, h⟩)
  else if n = 13 then some .sp
  else if n = 14 then some .lr
  else if n = 15 then some .pc
  else none

/-- The register of a name: one of the special names, or `r` and a number. -/
def ofName? (s : String) : Option Reg :=
  if s = "sp" then some .sp
  else if s = "lr" then some .lr
  else if s = "pc" then some .pc
  else if s = "xpsr" then some .xpsr
  else if s = "msp" then some .msp
  else if s = "psp" then some .psp
  else if s = "control" then some .control
  else
    match s.toList with
    | 'r' :: digits => do ofNumber? (← Text.canonicalDecimal? digits)
    | _ => none

end Reg

/-- Kinds of breakpoint that ARM cores know. -/
inductive Breakpoint where
  | thumb16 | thumb32 | arm32
  deriving DecidableEq, Repr

/-- How a kind of breakpoint is shown. -/
def Breakpoint.name : Breakpoint → String
  | .thumb16 => "Thumb16"
  | .thumb32 => "Thumb32"
  | .arm32 => "Arm32"

/-- The mode an algorithm must run in. -/
inductive Mode where
  /-- Whatever mode the core is in. -/
  | any
  /-- Privileged thread mode, on the main stack. -/
  | thread
  /-- Exception handlers run in this mode; a debugger cannot enter it. -/
  | handler
  deriving DecidableEq, Repr

/-- The status register with nothing but the Thumb bit set. -/
def thumbBit : BitVec 32 := 0x01000000#32

end DebugLink.CortexM

namespace DebugLink

/-- The Cortex-M cores. An image names the mode it needs, thread mode unless it says
    otherwise; it lies on halfwords. -/
abbrev cortexM : Arch where
  width := 32
  Reg := CortexM.Reg
  Kind := CortexM.Breakpoint
  kindName := CortexM.Breakpoint.name
  Info := CortexM.Mode
  defaultInfo := .thread
  pc := .pc
  reg? := CortexM.Reg.ofName?
  regName := CortexM.Reg.name
  exitKind := fun _ => .thumb16
  check := fun image =>
    if image.info = .handler then .error (.arch "cannot run algorithms in handler mode")
    else if image.entry.toNat % 2 ≠ 0 then .error .misalignedEntry
    else if image.exit.toNat % 2 ≠ 0 then .error .misalignedExit
    else .ok ()
  context := fun mode =>
    (.xpsr, CortexM.thumbBit) :: if mode = .thread then [(.control, 0)] else []

end DebugLink
