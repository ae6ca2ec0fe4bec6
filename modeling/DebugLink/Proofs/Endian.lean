import DebugLink.Endian
import Mathlib.Algebra.Group.Nat.Defs

/-!
# Words in memory, there and back

`value_encode` says that decoding gives back what was encoded, up to the width; `encode_value`
that every string of bytes is the encoding of its value.
-/

namespace DebugLink

/-- Decoding gives back what was encoded, up to the number of bytes. -/
theorem littleValue_littleBytes (n v : Nat) : littleValue (littleBytes n v) = v % 256 ^ n := by
  induction n generalizing v with
  | zero => simp [littleBytes, littleValue, Nat.mod_one]
  | succ n ih =>
    have h : (UInt8.ofNat v).toNat = v % 256 := by simp
    rw [littleBytes, littleValue, ih, h, Nat.pow_succ, Nat.mul_comm (256 ^ n), Nat.mod_mul]

/-- Encoding gives back the bytes that were decoded. -/
theorem littleBytes_littleValue (bs : List UInt8) :
    littleBytes bs.length (littleValue bs) = bs := by
  induction bs with
  | nil => rfl
  | cons b bs ih =>
    have hb : b.toNat < 256 := b.toNat_lt
    have hd : (b.toNat + 256 * littleValue bs) / 256 = littleValue bs := by omega
    have hm : UInt8.ofNat (b.toNat + 256 * littleValue bs) = b := by
      apply UInt8.toNat_inj.mp
      simp
    simp [littleBytes, littleValue, hd, hm, ih]

/-- Each byte is worth one digit, to the base 256. -/
theorem littleValue_lt (bs : List UInt8) : littleValue bs < 256 ^ bs.length := by
  induction bs with
  | nil => simp [littleValue]
  | cons b bs ih =>
    have hb : b.toNat < 256 := b.toNat_lt
    rw [littleValue, List.length_cons, Nat.pow_succ]
    omega

namespace Endian

/-- In either order a word comes back as what fits into its bytes. -/
theorem value_encode (e : Endian) (n v : Nat) : e.value (e.encode n v) = v % 256 ^ n := by
  cases e <;> simp [encode, value, littleValue_littleBytes]

/-- In either order no two strings of bytes of one length have the same value. -/
theorem encode_value (e : Endian) (bs : List UInt8) : e.encode bs.length (e.value bs) = bs := by
  cases e with
  | little => exact littleBytes_littleValue bs
  | big =>
    have h := littleBytes_littleValue bs.reverse
    rw [List.length_reverse] at h
    simp [encode, value, h]

/-- The value of some bytes fits into that many bytes. -/
theorem value_lt (e : Endian) (bs : List UInt8) : e.value bs < 256 ^ bs.length := by
  cases e with
  | little => exact littleValue_lt bs
  | big => simpa [value] using littleValue_lt bs.reverse

end Endian

end DebugLink
