import DebugLink.Endian
import DebugLink.Note
import DebugLink.Sim.Region

/-!
# The flash loader of the emulated chip

The loader drains a ring buffer into flash, one halfword at a time, and moves the read pointer
on behind each of them. A halfword can only be programmed where flash is erased; anywhere else
the loader gives up by zeroing the read pointer.
-/

namespace DebugLink.Chip

/-- An address or a word of the chip. -/
abbrev Word := BitVec 32

/-- First address of RAM. -/
def ramBase : Nat := 0x20000000

/-- Bytes of RAM. -/
def ramSize : Nat := 0x5000

/-- First address of flash. -/
def flashBase : Nat := 0x08000000

/-- Bytes of flash. -/
def flashSize : Nat := 0x20000

/-- Where the registers of the flash controller lie. -/
def flashRegs : Word := 0x40022000

/-- The loader's status after a programming error. -/
def programmingError : Word := 4

/-- Halfwords that the loader programs between two looks of the host. -/
def burstLength : Nat := 64

/-- RAM and flash of the chip. -/
structure Store where
  ram : Region
  flash : Region

namespace Store

/-- The `len` bytes at `a`. -/
def load? (s : Store) (a len : Nat) : Option (Bytes len) :=
  s.ram.load? a len <|> s.flash.load? a len

/-- The word at `a`. -/
def word? (s : Store) (a : Word) : Option Word :=
  (s.load? a.toNat 4).map fun bytes => BitVec.ofNat 32 (littleValue bytes.val)

/-- Can `len` bytes be written at `a` over the link? Only RAM can. -/
def writable (s : Store) (a len : Nat) : Bool :=
  s.ram.Covers a len

/-- Writes to RAM; outside of it nothing happens. -/
def write : Store → Nat → List UInt8 → Store
  | ⟨ram, flash⟩, a, data =>
    if ram.Covers a data.length then ⟨ram.store a data, flash⟩ else ⟨ram, flash⟩

/-- Puts bytes into RAM or flash from outside; nothing is checked. -/
def poke : Store → Nat → List UInt8 → Store
  | ⟨ram, flash⟩, a, data =>
    if ram.Covers a data.length then ⟨ram.store a data, flash⟩
    else if flash.Covers a data.length then ⟨ram, flash.store a data⟩
    else ⟨ram, flash⟩

/-- Writes a word to RAM. -/
def writeWord (s : Store) (a value : Word) : Store :=
  s.write a.toNat (littleBytes 4 value.toNat)

/-- Is the halfword at `a` a halfword of erased flash? -/
def erased (s : Store) (a : Word) : Bool :=
  match s.flash.load? a.toNat 2 with
  | some bytes => bytes.val = [0xff, 0xff]
  | none => false

/-- Programs flash. -/
def program : Store → Nat → List UInt8 → Store
  | ⟨ram, flash⟩, a, data => ⟨ram, flash.store a data⟩

end Store

/-- The state of a running loader. -/
structure Loader where
  /-- Halfwords still to program. -/
  count : Word
  /-- Where the ring buffer begins, and where it ends. -/
  ring : Word
  ringEnd : Word
  /-- Where the next halfword goes. -/
  dest : Word
  /-- Where the loader jumps in the end. -/
  exit : Word
  deriving DecidableEq, Repr

namespace Loader

/-- Where the loader keeps its pointer. -/
def rpPlace (l : Loader) : Word :=
  l.ring + 4

/-- Where the read pointer goes from `rp`. -/
def next (l : Loader) (rp : Word) : Word :=
  if l.ringEnd ≤ rp + 2 then l.ring + 8 else rp + 2

/-- What a burst of work led to. -/
structure Burst where
  /-- The status the loader exits with, if it does. -/
  status : Option Word
  loader : Loader
  store : Store
  notes : List Note := []

/-- Programs at most `n` halfwords, as long as the ring holds any. -/
def burst : Nat → Loader → Store → Burst
  | 0, l, s => ⟨none, l, s, []⟩
  | n + 1, l, s =>
    if l.count = 0 then ⟨some 0, l, s, []⟩
    else
      match s.word? l.ring, s.word? l.rpPlace with
      | some wp, some rp =>
        if wp = 0 then ⟨some 0, l, s, []⟩
        else if wp = rp then ⟨none, l, s, []⟩
        else
          match s.load? rp.toNat 2 with
          | none => ⟨some programmingError, l, s, []⟩
          | some half =>
            if s.erased l.dest then
              let s := (s.program l.dest.toNat half.val).writeWord l.rpPlace (l.next rp)
              burst n { l with dest := l.dest + 2, count := l.count - 1 } s
            else
              ⟨some programmingError, l, s.writeWord l.rpPlace 0, [.notErased l.dest.toNat]⟩
      | _, _ => ⟨some programmingError, l, s, []⟩

end Loader

end DebugLink.Chip
