/-!
# Register files

The registers of a simulated core. Those that were never written hold zero.
-/

namespace DebugLink

/-- Values by register, each register at most once. -/
structure RegisterFile (ρ : Type) (w : Nat) where
  entries : List (ρ × BitVec w) := []

namespace RegisterFile

variable {ρ : Type} [DecidableEq ρ] {w : Nat}

/-- The value of a register. -/
def get (f : RegisterFile ρ w) (reg : ρ) : BitVec w :=
  match f.entries.find? (·.1 = reg) with
  | some e => e.2
  | none => 0

/-- Gives a register a value. -/
def set (f : RegisterFile ρ w) (reg : ρ) (value : BitVec w) : RegisterFile ρ w :=
  { entries := (reg, value) :: f.entries.filter (·.1 ≠ reg) }

/-- A register holds what was put there last, ... -/
@[simp] theorem get_set_self (f : RegisterFile ρ w) (reg : ρ) (value : BitVec w) :
    (f.set reg value).get reg = value := by
  simp [get, set]

/-- ... and the others keep what they hold. -/
theorem get_set_of_ne (f : RegisterFile ρ w) {reg other : ρ} (value : BitVec w)
    (h : other ≠ reg) : (f.set reg value).get other = f.get other := by
  have hf : (f.entries.filter (·.1 ≠ reg)).find? (·.1 = other)
      = f.entries.find? (·.1 = other) := by
    rw [List.find?_filter]
    congr 1
    funext e
    by_cases he : e.1 = other
    · simp [he, h]
    · simp [he]
  simp only [get, set, List.find?_cons, Ne.symm h, decide_false, hf]

end RegisterFile

end DebugLink
