import DebugLink.Transfer.Basic

/-!
# Reading through a ring buffer

The host owns the read pointer. Each round it looks at the write pointer, reads as long a piece
as there is without going around the end of the fifo, and publishes its pointer behind it. The
algorithm produces whole blocks, so only whole blocks can be asked for.
-/

namespace DebugLink.Engine

variable {A : Arch}

/-- Adds a piece to what was received. -/
def receive (chunk : List UInt8) : StreamM A Unit :=
  modify fun p => { p with received := p.received ++ chunk }

/-- Reads `rest` more bytes, from `rp` on; `stalls` counts the rounds without data since the
    last piece. -/
def drain (e : Engine) (wpPlace rpPlace : A.Addr) (rp rest stalls : Nat) : StreamM A Unit :=
  if _ : rest = 0 then
    return ()
  else do
    let wp ← partnerPointer .read wpPlace
    note (.progress (← get).stats.bytes rest wp rp)
    e.checkPointer .read wp
    if hs : e.ring.readSpace wp rp = 0 then
      e.backOff
      if ht : stalls < e.config.maxStalls then
        count fun s => { s with stalls := s.stalls + 1 }
        e.drain wpPlace rpPlace rp rest (stalls + 1)
      else
        note .noProgress
        throw .streamTimeout
    else
      let len := trimChunk rp (min (e.ring.readSpace wp rp) rest)
      let chunk ← readBuffer (← address (A := A) rp) len
      receive chunk.val
      let next := e.ring.advance rp len
      countChunk len next.2
      writeWord .full rpPlace next.1
      giveWay
      e.drain wpPlace rpPlace next.1 (rest - len) 0
termination_by (rest, e.config.maxStalls - stalls)
decreasing_by
  · exact Prod.Lex.right _ (by omega)
  · apply Prod.Lex.left
    have hlen : 0 < trimChunk rp (min (e.ring.readSpace wp rp) rest) :=
      trimChunk_pos (by omega)
    omega

/-- Reads `len` bytes from a ring that was just emptied. -/
def drainAll (e : Engine) (len : Nat) : StreamM A Unit := do
  let wpPlace ← address (A := A) e.ring.wpAddr
  let rpPlace ← address (A := A) e.ring.rpAddr
  e.drain wpPlace rpPlace e.ring.fifoStart len 0

/-- A buffer whose first bytes are replaced by what was received. -/
def fill (buffer received : List UInt8) : List UInt8 :=
  received ++ buffer.drop received.length

/-- Fills `buffer` with what the algorithm produces, and waits for it to halt. -/
def read (e : Engine) (patience : Nat) (buffer : List UInt8) :
    StateT (Held A) (Dialogue A) (Outcome × List UInt8) := do
  if buffer.length % e.ring.block ≠ 0 then
    return (.failed
      { offset := 0
        error := .invalidRing "read length must be a multiple of the block size" }, buffer)
  match ← (e.begin .read).run with
  | .error err => return (.failed { offset := 0, error := err }, buffer)
  | .ok () =>
    let (moved, progress) ← ((e.drainAll buffer.length).run.run {} : Dialogue A _)
    let ended ← e.conclude .read patience e.ring.rpAddr e.ring.wpAddr moved progress.stats
    return (ended, fill buffer progress.received)

end DebugLink.Engine
