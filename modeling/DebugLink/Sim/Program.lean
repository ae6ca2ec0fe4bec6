import DebugLink.Sim.Core

/-!
# Programs on the simulated target

There is no real core. Instead a program stands at an entry address and does one step whenever
the host looks at the target. The two that matter work at the far end of a ring buffer:
`Consumer` drains it like a flash loader, `Producer` fills it. Both compute with 32-bit words.
-/

namespace DebugLink.Sim

/-- What a program does next. -/
inductive Move where
  | stay
  /-- Jumps to an address; the core halts there if a breakpoint is set, and spins otherwise. -/
  | exit (pc : Word)
  /-- Halts at an address. -/
  | halt (pc : Word)
  deriving DecidableEq, Repr

/-- A ring buffer, as a program on the target sees it. -/
structure RingView where
  start : Word
  size : Word
  block : Word
  deriving DecidableEq, Repr

namespace RingView

variable (r : RingView)

/-- Address of the write pointer word. -/
def wpAddr : Word := r.start

/-- Address of the read pointer word. -/
def rpAddr : Word := r.start + 4

/-- First address of the fifo. -/
def fifoStart : Word := r.start + 8

/-- First address behind the fifo. -/
def fifoEnd : Word := r.start + r.size

end RingView

/-- The smaller of two words. -/
def least (a b : Word) : Word :=
  if a ≤ b then a else b

/-- Drains a ring buffer into memory. -/
structure Consumer where
  ring : RingView
  dest : Word
  /-- Bytes to drain before it exits. -/
  total : Word
  /-- Bytes of one step at most. -/
  rate : Word
  exit : Word
  /-- Give up, by zeroing the read pointer, once this much is drained. -/
  abortAfter : Option Word := none
  consumed : Word := 0
  deriving DecidableEq, Repr

/-- How many bytes the consumer takes: whole blocks, except for the last ones and for the end
    of the fifo. -/
def Consumer.take (p : Consumer) (wp rp : Word) : Word :=
  let available := if wp > rp then wp - rp else p.ring.fifoEnd - rp
  let remaining := p.total - p.consumed
  let take := least (least available p.rate) remaining
  if take < remaining ∧ rp + take < p.ring.fifoEnd then take - take % p.ring.block else take

/-- One step of the consumer. -/
def Consumer.step (p : Consumer) (c : Core) : Move × Consumer × Core :=
  let wp := c.loadWord p.ring.wpAddr
  let rp := c.loadWord p.ring.rpAddr
  if wp = 0 then (.exit p.exit, p, c)
  else if p.abortAfter.any (· ≤ p.consumed) then
    (.exit p.exit, p, c.storeWord p.ring.rpAddr 0)
  else if p.consumed = p.total then (.exit p.exit, p, c)
  else if wp = rp then (.stay, p, c)
  else
    let take := p.take wp rp
    if take = 0 then (.stay, p, c)
    else
      let c := c.copy rp (p.dest + p.consumed) take.toNat
      let next := if p.ring.fifoEnd ≤ rp + take then p.ring.fifoStart else rp + take
      (.stay, { p with consumed := p.consumed + take }, c.storeWord p.ring.rpAddr next)

/-- Fills a ring buffer from memory. -/
structure Producer where
  ring : RingView
  src : Word
  /-- Bytes to produce before it exits. -/
  total : Word
  /-- Bytes of one step at most. -/
  rate : Word
  exit : Word
  /-- Give up, by zeroing the write pointer, once this much is produced. -/
  abortAfter : Option Word := none
  produced : Word := 0
  deriving DecidableEq, Repr

/-- How many bytes the producer may write at `wp` in one piece. -/
def Producer.room (p : Producer) (wp rp : Word) : Word :=
  let ring := p.ring
  let withSlack (n : Word) : Word := if n ≤ ring.block then 0 else n - ring.block
  if wp < rp then withSlack (rp - wp)
  else if ring.fifoStart < rp then ring.fifoEnd - wp
  else withSlack (ring.fifoEnd - wp)

/-- How many bytes the producer writes, and where its pointer goes. The pointer stands on a
    block boundary: pieces are cut down to whole blocks, except for the end of the fifo, which
    takes the pointer back to the start, and the last piece, behind which the pointer moves on
    to the next boundary. -/
def Producer.piece (p : Producer) (wp rp : Word) : Word × Word :=
  let ring := p.ring
  let remaining := p.total - p.produced
  let take := least (least (p.room wp rp) p.rate) remaining
  let filled := wp + take - ring.fifoStart
  if ring.fifoEnd ≤ wp + take then (take, ring.fifoStart)
  else if take = remaining then
    let padded := ring.fifoStart + (filled + ring.block - 1) / ring.block * ring.block
    (take, if ring.fifoEnd ≤ padded then ring.fifoStart else padded)
  else
    let next := ring.fifoStart + filled - filled % ring.block
    (next - wp, next)

/-- One step of the producer. -/
def Producer.step (p : Producer) (c : Core) : Move × Producer × Core :=
  let wp := c.loadWord p.ring.wpAddr
  let rp := c.loadWord p.ring.rpAddr
  if rp = 0 then (.exit p.exit, p, c)
  else if p.abortAfter.any (· ≤ p.produced) then
    (.exit p.exit, p, c.storeWord p.ring.wpAddr 0)
  else if p.produced = p.total then (.exit p.exit, p, c)
  else
    let (take, next) := p.piece wp rp
    if take = 0 then (.stay, p, c)
    else
      let c := c.copy (p.src + p.produced) wp take.toNat
      (.stay, { p with produced := p.produced + take }, c.storeWord p.ring.wpAddr next)

/-- A step of a script: words to store, then a move. -/
structure ScriptStep where
  words : List (Word × Word) := []
  move : Move := .stay
  deriving DecidableEq, Repr

/-- A program on the simulated target. -/
inductive Program where
  /-- Never halts. -/
  | spin
  /-- Halts at `pc` after `delay` steps. -/
  | halter (pc : Word) (delay : Nat)
  /-- Adds up the `r1` bytes at `r0` into `r2` and the word at `r3`, spoils `r0`, and exits. -/
  | adder (exit : Word)
  | consumer (p : Consumer)
  | producer (p : Producer)
  /-- Keeps a bogus pointer at `ptr` until the host gives up by zeroing its own at `host`. -/
  | corrupter (ptr bad host exit : Word)
  /-- Does what it is told, and then nothing more. -/
  | script (steps : List ScriptStep)

/-- Adds up bytes. -/
def sum (bytes : List UInt8) : Word :=
  BitVec.ofNat 32 (bytes.foldl (fun n b => n + b.toNat) 0)

/-- One step of a program. -/
def Program.step : Program → Core → Move × Program × Core
  | .spin, c => (.stay, .spin, c)
  | .halter pc 0, c => (.halt pc, .halter pc 0, c)
  | .halter pc (delay + 1), c => (.stay, .halter pc delay, c)
  | .adder exit, c =>
    let total := sum (c.load (c.regs.get (.r 0)) (c.regs.get (.r 1)).toNat)
    let c := c.setReg (.r 2) total
    let c := c.storeWord (c.regs.get (.r 3)) total
    (.exit exit, .adder exit, c.setReg (.r 0) 0xdeadbeef)
  | .consumer p, c =>
    match p.step c with
    | (move, p, c) => (move, .consumer p, c)
  | .producer p, c =>
    match p.step c with
    | (move, p, c) => (move, .producer p, c)
  | .corrupter ptr bad host exit, c =>
    if c.loadWord host = 0 then (.exit exit, .corrupter ptr bad host exit, c)
    else (.stay, .corrupter ptr bad host exit, c.storeWord ptr bad)
  | .script [], c => (.stay, .script [], c)
  | .script (s :: rest), c =>
    (s.move, .script rest, s.words.foldl (fun c w => c.storeWord w.1 w.2) c)

end DebugLink.Sim
