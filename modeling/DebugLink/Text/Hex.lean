/-!
# Hexadecimal text

Addresses and words are shown in lower case, with a leading `0x`, either with as few digits
as they need (`hex`) or filled up with zeros to eight (`hexWord`). Bytes are shown two digits
each (`hexBytes`).
-/

namespace DebugLink.Text

/-- The digits of `n` in base sixteen, lower case and without leading zeros. -/
def hexDigits (n : Nat) : List Char :=
  Nat.toDigits 16 n

/-- The digits of `n`, filled up with zeros to `width` of them. -/
def filledHexDigits (width n : Nat) : List Char :=
  let digits := hexDigits n
  List.replicate (width - digits.length) '0' ++ digits

/-- `n` as `0x…`, without leading zeros. -/
def hex (n : Nat) : String :=
  "0x" ++ String.ofList (hexDigits n)

/-- `n` as `0x…` with at least eight digits. -/
def hexWord (n : Nat) : String :=
  "0x" ++ String.ofList (filledHexDigits 8 n)

/-- Bytes, one after the other and two digits each. -/
def hexBytes (data : List UInt8) : String :=
  String.ofList (data.flatMap fun b => filledHexDigits 2 b.toNat)

/-- The 64-bit hash of Fowler, Noll and Vo, in the variant that takes in a byte before it
    multiplies. -/
def fingerprint (data : List UInt8) : UInt64 :=
  data.foldl (fun h b => (h ^^^ b.toUInt64) * 0x100000001b3) 0xcbf29ce484222325

end DebugLink.Text
