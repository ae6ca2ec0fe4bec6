import DebugLink.Proofs.Ring

/-!
# Ring arithmetic in machine words

The arithmetic of a ring is on natural numbers, and a target works on words of 32 bits.  Here it
is once more, step by step on words, where a sum that leaves the word and a difference below
zero give nothing.

* `fifoStart?_eq` and `fifoEnd?_eq`: in a ring that was accepted, both ends fit.
* `writeSpace?_eq`, `readSpace?_eq` and `advance?_eq`: as long as both pointers are in the fifo,
  and the piece ends in it, NO STEP OVERFLOWS, and the results are the same.

Subtracting the unused block stops at zero on words as it does on numbers.
-/

namespace DebugLink

/-- A sum of words, if it is a word. -/
def sum? (a b : Nat) : Option Nat :=
  if a + b < 0x100000000 then some (a + b) else none

/-- A difference of words, if it is not below zero. -/
def difference? (a b : Nat) : Option Nat :=
  if b ≤ a then some (a - b) else none

/-- A sum that is a word is computed. -/
theorem sum?_eq {a b : Nat} (h : a + b < 0x100000000) : sum? a b = some (a + b) :=
  if_pos h

/-- So is a difference of a larger word and a smaller. -/
theorem difference?_eq {a b : Nat} (h : b ≤ a) : difference? a b = some (a - b) :=
  if_pos h

namespace Ring

variable (r : Ring)

/-- First address of the fifo. -/
def fifoStart? : Option Nat :=
  sum? r.start 8

/-- First address behind the fifo. -/
def fifoEnd? : Option Nat :=
  sum? r.start r.size

/-- Bytes that may be written at `wp` in one piece. -/
def writeSpace? (wp rp : Nat) : Option Nat := do
  if wp < rp then
    return (← difference? rp wp) - r.block
  else if (← r.fifoStart?) < rp then
    difference? (← r.fifoEnd?) wp
  else
    return (← difference? (← r.fifoEnd?) wp) - r.block

/-- Bytes that may be read at `rp` in one piece. -/
def readSpace? (wp rp : Nat) : Option Nat := do
  if rp ≤ wp then
    difference? wp rp
  else
    difference? (← r.fifoEnd?) rp

/-- Moves a pointer on by `len` bytes. -/
def advance? (ptr len : Nat) : Option (Nat × Bool) := do
  let ptr ← sum? ptr len
  if (← r.fifoEnd?) ≤ ptr then
    return (← r.fifoStart?, true)
  else
    return (ptr, false)

/-- The start of the fifo is a word. -/
theorem fifoStart?_eq : r.fifoStart? = some r.fifoStart := by
  have hpointers := r.pointers_fit
  have hreach := r.in_reach
  exact sum?_eq (by omega)

/-- So is its end, since the buffer ends below `2 ^ 32`. -/
theorem fifoEnd?_eq : r.fifoEnd? = some r.fifoEnd :=
  sum?_eq r.in_reach

variable {r} {wp rp ptr len : Nat}

/-- The reader's pointer may be anywhere. -/
theorem writeSpace?_eq (hwp : wp < r.fifoEnd) :
    r.writeSpace? wp rp = some (r.writeSpace wp rp) := by
  rw [writeSpace?, writeSpace, fifoStart?_eq, fifoEnd?_eq]
  split
  · next h =>
    rw [difference?_eq (Nat.le_of_lt h)]
    rfl
  · simp only [Option.bind_eq_bind, Option.bind_some, difference?_eq (Nat.le_of_lt hwp)]
    split <;> rfl

/-- The writer's pointer may be anywhere. -/
theorem readSpace?_eq (hrp : rp < r.fifoEnd) : r.readSpace? wp rp = some (r.readSpace wp rp) := by
  rw [readSpace?, readSpace, fifoEnd?_eq]
  split
  · next h => exact difference?_eq h
  · exact difference?_eq (Nat.le_of_lt hrp)

/-- A pointer that is moved on inside the fifo does not leave a word. -/
theorem advance?_eq (h : ptr + len ≤ r.fifoEnd) :
    r.advance? ptr len = some (r.advance ptr len) := by
  have hend := r.fifoEnd_lt
  rw [advance?, advance, fifoStart?_eq, fifoEnd?_eq, sum?_eq (by omega)]
  simp only [Option.bind_eq_bind, Option.bind_some]
  split <;> rfl

end Ring

end DebugLink
