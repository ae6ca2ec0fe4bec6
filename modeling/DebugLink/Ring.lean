import DebugLink.Area.Basic

/-!
# Ring buffers

A ring buffer in target memory begins with two words, the write pointer and the read pointer;
the rest is the fifo. Both pointers are addresses in the fifo. One block of it always stays
unused, so that equal pointers mean "empty" and nothing else, and a zero in a pointer word
means that its owner has given up.

All arithmetic is on natural numbers. The geometry is checked when a ring is described, which
keeps every address below 2³².
-/

namespace DebugLink

/-- Why a piece of memory does not serve as a ring buffer. -/
inductive RingFault where
  | blockNotPowerOfTwo
  | noRoomForPointers
  | noRoomForTwoBlocks
  | misaligned
  | outOfReach
  deriving DecidableEq, Repr

/-- The wording of a `RingFault`. -/
def RingFault.message : RingFault → String
  | .blockNotPowerOfTwo => "block size must be a power of two"
  | .noRoomForPointers => "buffer too small for the pointer words"
  | .noRoomForTwoBlocks => "fifo can't hold two blocks"
  | .misaligned => "misaligned buffer"
  | .outOfReach => "buffer exceeds the 32-bit address space"

/-- The geometry of a ring buffer. -/
structure Ring where
  start : Nat
  /-- Bytes of the whole buffer, both pointer words included. -/
  size : Nat
  /-- The partner's pointer moves in steps of this many bytes. -/
  block : Nat
  block_pow : block = 1 <<< block.log2
  pointers_fit : 8 < size
  two_blocks : block ≤ (size - 8) / 2
  aligned : start % 4 = 0
  start_pos : 0 < start
  in_reach : start + size < 0x100000000

namespace Ring

/-- Describes a ring buffer of `size` bytes at `start`. -/
def ofBuffer? (start size block : Nat) : Except RingFault Ring :=
  if hb : block = 1 <<< block.log2 then
    if hs : 8 < size then
      if ht : block ≤ (size - 8) / 2 then
        if ha : start % 4 = 0 then
          if hr : 0 < start ∧ start + size < 0x100000000 then
            .ok ⟨start, size, block, hb, hs, ht, ha, hr.1, hr.2⟩
          else .error .outOfReach
        else .error .misaligned
      else .error .noRoomForTwoBlocks
    else .error .noRoomForPointers
  else .error .blockNotPowerOfTwo

/-- Describes the ring buffer that fills a working area. -/
def ofArea? {w : Nat} (area : Area w) (block : Nat) : Except RingFault Ring :=
  if area.address.toNat < 0x100000000 then ofBuffer? area.address.toNat area.size block
  else .error .outOfReach

variable (r : Ring)

/-- Address of the write pointer word. -/
def wpAddr : Nat := r.start

/-- Address of the read pointer word. -/
def rpAddr : Nat := r.start + 4

/-- First address of the fifo. -/
def fifoStart : Nat := r.start + 8

/-- First address behind the fifo. -/
def fifoEnd : Nat := r.start + r.size

/-- Bytes of the fifo. -/
def capacity : Nat := r.size - 8

/-- Could the partner have published this pointer? It moves in whole blocks. -/
def isValidPtr (ptr : Nat) : Bool :=
  r.fifoStart ≤ ptr && ptr < r.fifoEnd && (ptr - r.fifoStart) % r.block = 0

/-- Bytes that may be written at `wp` in one piece, with one block left unused. -/
def writeSpace (wp rp : Nat) : Nat :=
  if wp < rp then rp - wp - r.block
  else if r.fifoStart < rp then r.fifoEnd - wp
  else r.fifoEnd - wp - r.block

/-- Bytes that may be read at `rp` in one piece. -/
def readSpace (wp rp : Nat) : Nat :=
  if rp ≤ wp then wp - rp else r.fifoEnd - rp

/-- Moves a pointer on by `len` bytes. At the end of the fifo it goes back to the start, which
    is the second part of the answer. -/
def advance (ptr len : Nat) : Nat × Bool :=
  if r.fifoEnd ≤ ptr + len then (r.fifoStart, true) else (ptr + len, false)

end Ring

/-- Shortens a piece of sixteen bytes or more so that it ends on a word boundary, counted from
    `rp`. -/
def trimChunk (rp len : Nat) : Nat :=
  if 16 ≤ len then len - (rp + len) % 4 else len

/-- Trimming never adds to a piece, ... -/
theorem trimChunk_le (rp len : Nat) : trimChunk rp len ≤ len := by
  unfold trimChunk
  split <;> omega

/-- ... and leaves something of it. -/
theorem trimChunk_pos {rp len : Nat} (h : 0 < len) : 0 < trimChunk rp len := by
  unfold trimChunk
  split <;> omega

end DebugLink
