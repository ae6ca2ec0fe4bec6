import DebugLink.Call

/-!
# Memory of simulated targets

A region is a stretch of bytes at an address; a memory is a list of regions. An access must lie
wholly inside one region. Loading gives as many bytes as were asked for, by its type; storing
where nothing is changes nothing.
-/

namespace DebugLink

/-- A stretch of memory. -/
structure Region where
  base : Nat
  bytes : Array UInt8

namespace Region

/-- `size` bytes of the same value. -/
def filled (base size : Nat) (value : UInt8) : Region :=
  { base, bytes := Array.replicate size value }

variable (r : Region)

/-- Does the region hold `len` bytes at `a`? -/
def Covers (a len : Nat) : Prop :=
  r.base ≤ a ∧ a + len ≤ r.base + r.bytes.size

instance (a len : Nat) : Decidable (r.Covers a len) :=
  inferInstanceAs (Decidable (_ ∧ _))

/-- The `len` bytes at `a`, if the region holds them. -/
def load? (a len : Nat) : Option (Bytes len) :=
  if h : r.Covers a len then
    some ⟨(r.bytes.extract (a - r.base) (a - r.base + len)).toList, by
      unfold Covers at h
      simp
      omega⟩
  else none

/-- Overwrites `bytes` from position `i` on. -/
def overwrite (bytes : Array UInt8) (i : Nat) : List UInt8 → Array UInt8
  | [] => bytes
  | b :: rest => overwrite (bytes.setIfInBounds i b) (i + 1) rest

/-- Puts `data` at `a`. -/
def store (r : Region) (a : Nat) (data : List UInt8) : Region :=
  match r with
  | ⟨base, bytes⟩ => ⟨base, overwrite bytes (a - base) data⟩

end Region

/-- The memory of a simulated target. -/
abbrev Memory := List Region

namespace Memory

/-- The `len` bytes at `a`, if some region holds them. -/
def load? (m : Memory) (a len : Nat) : Option (Bytes len) :=
  m.findSome? (·.load? a len)

/-- Does some region hold `len` bytes at `a`? -/
def covers (m : Memory) (a len : Nat) : Bool :=
  m.any fun r => r.Covers a len

/-- Puts `data` at `a`, in the first region that holds that much there. -/
def store : Memory → Nat → List UInt8 → Memory
  | [], _, _ => []
  | r :: rest, a, data =>
    if r.Covers a data.length then r.store a data :: rest else r :: store rest a data

end Memory

end DebugLink
