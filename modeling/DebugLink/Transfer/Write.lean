import DebugLink.Transfer.Basic

/-!
# Writing through a ring buffer

The host owns the write pointer. Each round it looks at the read pointer, writes as long a
piece as fits without going around the end of the fifo, and publishes its pointer behind it.
-/

namespace DebugLink.Engine

variable {A : Arch}

/-- Writes the rest of the data, from `wp` on; `stalls` counts the rounds without room since
    the last piece. -/
def feed (e : Engine) (wpPlace rpPlace : A.Addr) (wp : Nat) (rest : List UInt8) (stalls : Nat) :
    StreamM A Unit :=
  if hr : rest = [] then
    return ()
  else do
    let rp ← partnerPointer .write rpPlace
    note (.progress (← get).stats.bytes rest.length wp rp)
    e.checkPointer .write rp
    if hs : e.ring.writeSpace wp rp = 0 then
      e.backOff
      if ht : stalls < e.config.maxStalls then
        count fun s => { s with stalls := s.stalls + 1 }
        e.feed wpPlace rpPlace wp rest (stalls + 1)
      else
        note .noProgress
        throw .streamTimeout
    else
      let len := trimChunk rp (min (e.ring.writeSpace wp rp) rest.length)
      writeBuffer (← address (A := A) wp) (rest.take len)
      let next := e.ring.advance wp len
      countChunk len next.2
      writeWord .full wpPlace next.1
      giveWay
      e.feed wpPlace rpPlace next.1 (rest.drop len) 0
termination_by (rest.length, e.config.maxStalls - stalls)
decreasing_by
  · exact Prod.Lex.right _ (by omega)
  · apply Prod.Lex.left
    have hpos : 0 < rest.length := List.length_pos_iff.mpr hr
    have hlen : 0 < trimChunk rp (min (e.ring.writeSpace wp rp) rest.length) :=
      trimChunk_pos (by omega)
    rw [List.length_drop]
    omega

/-- Writes all of the data into a ring that was just emptied. -/
def feedAll (e : Engine) (data : List UInt8) : StreamM A Unit := do
  let wpPlace ← address (A := A) e.ring.wpAddr
  let rpPlace ← address (A := A) e.ring.rpAddr
  e.feed wpPlace rpPlace e.ring.fifoStart data 0

/-- Hands `data` to the algorithm, and waits for it to halt. -/
def write (e : Engine) (patience : Nat) (data : List UInt8) :
    StateT (Held A) (Dialogue A) Outcome := do
  match ← (e.begin .write).run with
  | .error err => return .failed { offset := 0, error := err }
  | .ok () =>
    let (moved, progress) ← ((e.feedAll data).run.run {} : Dialogue A _)
    e.conclude .write patience e.ring.wpAddr e.ring.rpAddr moved progress.stats

end DebugLink.Engine
