import DebugLink.Text.Decimal

/-!
# Canonical decimal numbers

`canonicalDecimal?` reads EXACTLY WHAT IS WRITTEN for a number, so that each number has one spelling
and nothing else is one.

* `digitsValue?_of_digits` says that a string of digits has the value that they stand for.
* `toDigits_append_of_value` is the way back.  A digit that is read extends the number that was read
  so far by one place, provided that this is NOT ZERO; that is why a number must not begin with a
  zero.
-/

namespace DebugLink.Text

variable {c : Char} {cs : List Char} {acc n : Nat}

/-- The two ways to say that a character is a digit. -/
theorem isDigit_iff : '0' ≤ c ∧ c ≤ '9' ↔ c.isDigit = true := by
  rw [Char.isDigit_iff_toNat]
  exact Iff.rfl

/-- A digit is what is written for its value. -/
theorem digitChar_sub (h : '0' ≤ c ∧ c ≤ '9') :
    c.toNat - '0'.toNat < 10 ∧ (c.toNat - '0'.toNat).digitChar = c := by
  have hlow : 48 ≤ c.toNat := h.1
  have hhigh : c.toNat ≤ 57 := h.2
  have hlt : c.toNat - 48 < 10 := by omega
  refine ⟨hlt, Char.toNat_inj.mp ?_⟩
  show (c.toNat - 48).digitChar.toNat = c.toNat
  rw [Nat.toNat_digitChar_of_lt_ten hlt]
  omega

/-- Digits are read as the number that they stand for. -/
theorem digitsValue?_of_digits (h : ∀ c ∈ cs, c.isDigit = true) :
    digitsValue? acc cs = some (Nat.ofDigitChars 10 cs acc) := by
  induction cs generalizing acc with
  | nil => rfl
  | cons c cs ih =>
      obtain ⟨hc, hcs⟩ := List.forall_mem_cons.mp h
      rw [digitsValue?, if_pos (isDigit_iff.mpr hc), ih hcs, Nat.ofDigitChars_cons, Nat.mul_comm]

/-- What was read is what is written for the number, if more digits come after one that is not
    zero. -/
theorem toDigits_append_of_value (hpos : 0 < acc) (h : digitsValue? acc cs = some n) :
    Nat.toDigits 10 acc ++ cs = Nat.toDigits 10 n := by
  induction cs generalizing acc with
  | nil =>
      obtain rfl := Option.some.inj h
      exact List.append_nil _
  | cons c cs ih =>
      rw [digitsValue?] at h
      split at h
      · next hc =>
        obtain ⟨hlt, hchar⟩ := digitChar_sub hc
        have hplace := Nat.toDigits_append_toDigits (b := 10) (by decide) hpos hlt
        rw [Nat.toDigits_of_lt_base hlt, hchar, Nat.mul_comm] at hplace
        rw [List.append_cons, hplace]
        exact ih (by omega) h
      · exact absurd h (by simp)

/-- A number that is not zero is not written with a zero in front. -/
theorem head_toDigits (hpos : 0 < n) : (Nat.toDigits 10 n).head? ≠ some '0' := by
  induction n using Nat.strongRecOn with
  | ind n ih =>
      rcases Nat.lt_or_ge n 10 with hlt | hge
      · rw [Nat.toDigits_of_lt_base hlt]
        intro hzero
        exact absurd (Nat.digitChar_eq_zero.mp (Option.some.inj hzero)) (Nat.ne_of_gt hpos)
      · have hhead := ih (n / 10) (by omega) (by omega)
        rw [Nat.toDigits_of_base_le (by decide) hge]
        cases hd : Nat.toDigits 10 (n / 10) with
        | nil => exact absurd hd Nat.toDigits_ne_nil
        | cons c cs =>
            rw [hd] at hhead
            exact hhead

/-- What does not begin with a zero is read digit by digit. -/
theorem canonicalDecimal?_cons (hc : c ≠ '0') :
    canonicalDecimal? (c :: cs) = digitsValue? 0 (c :: cs) := by
  rw [canonicalDecimal?]
  · exact nofun
  · exact fun hzero => hc (List.cons.inj hzero).1
  · exact fun _ hzero => hc (List.cons.inj hzero).1

/-- EACH NUMBER HAS ONE SPELLING, and nothing else is one. -/
theorem canonicalDecimal?_eq_some_iff :
    canonicalDecimal? cs = some n ↔ cs = Nat.toDigits 10 n := by
  constructor
  · intro h
    cases cs with
    | nil => exact absurd h (by simp [canonicalDecimal?])
    | cons c cs =>
        by_cases hc : c = '0'
        · subst hc
          cases cs with
          | nil =>
              obtain rfl := Option.some.inj h
              exact (Nat.toDigits_zero 10).symm
          | cons d cs => exact absurd h (by simp [canonicalDecimal?])
        · rw [canonicalDecimal?_cons hc, digitsValue?] at h
          split at h
          · next hdigit =>
            obtain ⟨hlt, hchar⟩ := digitChar_sub hdigit
            have hpos : 0 < c.toNat - '0'.toNat := by
              refine Nat.pos_of_ne_zero fun hzero => hc ?_
              rw [← hchar, hzero]
              rfl
            rw [Nat.zero_mul, Nat.zero_add] at h
            rw [← toDigits_append_of_value hpos h, Nat.toDigits_of_lt_base hlt, hchar]
            rfl
          · exact absurd h (by simp)
  · rintro rfl
    rcases Nat.eq_zero_or_pos n with rfl | hpos
    · rw [Nat.toDigits_zero]
      rfl
    · have hhead := head_toDigits hpos
      have hvalue : digitsValue? 0 (Nat.toDigits 10 n) = some n := by
        rw [digitsValue?_of_digits fun c => Nat.isDigit_of_mem_toDigits (by decide) (by decide),
          Nat.ofDigitChars_ten_toDigits]
      cases hd : Nat.toDigits 10 n with
      | nil => exact absurd hd Nat.toDigits_ne_nil
      | cons c cs =>
          rw [hd] at hhead hvalue
          rw [canonicalDecimal?_cons fun hc => hhead (congrArg some hc), hvalue]

end DebugLink.Text
