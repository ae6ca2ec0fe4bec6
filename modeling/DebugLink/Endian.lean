import DebugLink.Call

/-!
# Words in memory

A word of `n` bytes in either byte order.
-/

namespace DebugLink

/-- The low `n` bytes of `v`, least significant first. -/
def littleBytes : Nat → Nat → List UInt8
  | 0, _ => []
  | n + 1, v => UInt8.ofNat v :: littleBytes n (v / 256)

/-- The value of a string of bytes, least significant first. -/
def littleValue : List UInt8 → Nat
  | [] => 0
  | b :: bs => b.toNat + 256 * littleValue bs

/-- As many bytes come out as are asked for, whatever the number. -/
@[simp] theorem length_littleBytes (n v : Nat) : (littleBytes n v).length = n := by
  induction n generalizing v with
  | zero => rfl
  | succ n ih => simp [littleBytes, ih]

namespace Endian

/-- The low `n` bytes of `v` in this order. -/
def encode : Endian → Nat → Nat → List UInt8
  | .little, n, v => littleBytes n v
  | .big, n, v => (littleBytes n v).reverse

/-- The value of a string of bytes in this order. -/
def value : Endian → List UInt8 → Nat
  | .little, bs => littleValue bs
  | .big, bs => littleValue bs.reverse

@[simp] theorem length_encode (e : Endian) (n v : Nat) : (e.encode n v).length = n := by
  cases e <;> simp [encode]

end Endian

end DebugLink
