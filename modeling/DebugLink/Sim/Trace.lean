import DebugLink.Sim.Tap
import DebugLink.Text.Hex

/-!
# Traces

The calls that a tap wrote down, as lines of text. A call is one line: its name and its
arguments, and a mark if it was spoiled. Equal neighbours are one line with a count
(`runLengths`), so that a thousand polls do not hide the rest.
-/

namespace DebugLink

/-- Bytes that a line shows in full. -/
def Call.shownBytes : Nat := 16

open Text in
/-- A call as a line. -/
def Call.text {A : Arch} : Call A → String
  | .read a len => "read " ++ hex a.toNat ++ " " ++ toString len
  | .write a data =>
    "write " ++ hex a.toNat ++ " " ++
      if data.length ≤ shownBytes then hexBytes data else "len " ++ toString data.length
  | .readReg reg => "rreg " ++ A.regName reg
  | .writeReg reg value => "wreg " ++ A.regName reg ++ " " ++ hex value.toNat
  | .halt => "halt"
  | .resume a flags =>
    "resume " ++ (match a with | some a => hex a.toNat | none => "-") ++ " "
      ++ toString flags.bits
  | .poll => "poll"
  | .addBreakpoint a kind => "add_bp " ++ hex a.toNat ++ " " ++ A.kindName kind
  | .removeBreakpoint a kind => "rm_bp " ++ hex a.toNat ++ " " ++ A.kindName kind
  | .mmuEnabled => "mmu"

/-- A call that went through a tap, as a line. -/
def TappedCall.text {A : Arch} (c : TappedCall A) : String :=
  c.call.text ++ if c.spoiled then "!" else ""

/-- Puts `x` before a list of runs. -/
def pushRun {α : Type} [DecidableEq α] (x : α) : List (α × Nat) → List (α × Nat)
  | [] => [(x, 1)]
  | (y, n) :: rest => if x = y then (y, n + 1) :: rest else (x, 1) :: (y, n) :: rest

/-- The runs of equal neighbours in a list, with their lengths. -/
def runLengths {α : Type} [DecidableEq α] (xs : List α) : List (α × Nat) :=
  xs.foldr pushRun []

/-- Lines for calls, equal neighbours joined. -/
def traceLines {A : Arch} (calls : List (TappedCall A)) : List String :=
  (runLengths (calls.map (·.text))).map fun (text, n) =>
    if n = 1 then text else text ++ " *" ++ toString n

end DebugLink
