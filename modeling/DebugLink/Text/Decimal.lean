/-!
# Reading decimal numbers

Register names end in a decimal number. Two rules are in use: the canonical one takes each
number in exactly one spelling (no sign, no leading zero), the lenient one also takes a plus
sign and leading zeros. Both know the ASCII digits alone.
-/

namespace DebugLink.Text

/-- The value of a digit string, most significant digit first, on top of `acc`; `none` if it
    holds anything but ASCII digits. -/
def digitsValue? (acc : Nat) : List Char → Option Nat
  | [] => some acc
  | c :: rest =>
    if '0' ≤ c ∧ c ≤ '9' then digitsValue? (acc * 10 + (c.toNat - '0'.toNat)) rest else none

/-- A number in its canonical spelling: at least one digit, no sign, and no leading zero
    unless the number is zero itself. -/
def canonicalDecimal? : List Char → Option Nat
  | [] => none
  | ['0'] => some 0
  | '0' :: _ => none
  | cs => digitsValue? 0 cs

/-- A number with an optional plus sign and any number of leading zeros. -/
def lenientDecimal? (cs : List Char) : Option Nat :=
  match (match cs with | '+' :: rest => rest | _ => cs) with
  | [] => none
  | digits => digitsValue? 0 digits

end DebugLink.Text
