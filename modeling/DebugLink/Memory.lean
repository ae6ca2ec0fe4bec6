import DebugLink.Dialogue
import DebugLink.Endian

/-!
# Target memory

Single words in the target's byte order, and buffers of any length. A buffer must not run past
the end of the address space, and an empty one costs no access.
-/

namespace DebugLink

/-- Sizes of a word in memory. -/
inductive WordSize where
  | half | full | double
  deriving DecidableEq, Repr

/-- Bytes of a word. -/
def WordSize.bytes : WordSize → Nat
  | .half => 2
  | .full => 4
  | .double => 8

/-- Bits of a word. -/
def WordSize.bits (size : WordSize) : Nat :=
  8 * size.bytes

variable {A : Arch}

/-- Reads one word. -/
def readWord (size : WordSize) (address : A.Addr) : Link A Nat := do
  match ← tryCall (.read address size.bytes) with
  | .error e =>
    note (.wordUnread address.toNat size.bits)
    throw (.ofTarget e)
  | .ok bytes =>
    let value := (← feature .endian).value bytes.val
    note (.word address.toNat value)
    return value

/-- Writes one word. -/
def writeWord (size : WordSize) (address : A.Addr) (value : Nat) : Link A Unit := do
  let bytes := (← feature .endian).encode size.bytes value
  note (.word address.toNat value)
  call (.write address bytes)

/-- Refuses a block that runs past the end of the address space. -/
def checkFits (address : A.Addr) (len : Nat) : Link A Unit :=
  if Arch.Fits address len then
    pure ()
  else do
    note (.rangeWrapped address.toNat len)
    throw (.addressWrap address.toNat len)

/-- Reads `len` bytes. -/
def readBuffer (address : A.Addr) (len : Nat) : Link A (Bytes len) := do
  note (.readingBuffer len address.toNat)
  if h : len = 0 then
    return ⟨[], h.symm⟩
  else
    checkFits address len
    call (.read address len)

/-- Writes all of `data`. -/
def writeBuffer (address : A.Addr) (data : List UInt8) : Link A Unit := do
  note (.writingBuffer data.length address.toNat)
  if data = [] then
    return ()
  else
    checkFits address data.length
    call (.write address data)

end DebugLink
