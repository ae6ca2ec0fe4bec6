import DebugLink.Demo

/-!
# Command line

Runs the demonstration and tells how it went.
-/

open DebugLink

/-- Prints what the demonstration tells. The exit status says whether it went well. -/
def main : IO UInt32 := do
  let (lines, failure) := Demo.report
  for line in lines do
    IO.println line
  match failure with
  | none => return 0
  | some e =>
    IO.eprintln ("Error: " ++ e.message)
    return 1
