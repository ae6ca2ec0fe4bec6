import DebugLink.Ring
import DebugLink.Runner.Wait

/-!
# Transfers

Bulk data goes through a ring buffer in target memory while an algorithm works at the other end
of it. There are no completion signals: the host looks at the partner's pointer, moves a piece
if there is room (or data), and backs off for a while if there is none.
-/

namespace DebugLink

/-- How patient a transfer is. -/
structure TransferConfig where
  /-- How long to back off, in milliseconds. -/
  pollInterval : Nat := 2
  /-- How often in a row the host backs off before it gives up. -/
  maxStalls : Nat := 2500
  /-- How long to wait for the algorithm to halt in the end, in milliseconds. -/
  waitTimeout : Nat := 10000
  deriving DecidableEq, Repr

/-- What a transfer did. The bytes are a length. The other counters are words of 32 bits: they
    start over after `2 ^ 32`, and nothing that a transfer does depends on them. -/
structure Stats where
  /-- Bytes that went through the ring. -/
  bytes : Nat := 0
  /-- Pieces they went in. -/
  chunks : UInt32 := 0
  /-- How often the host backed off. -/
  stalls : UInt32 := 0
  /-- How often the host's pointer went back to the start of the fifo. -/
  wraps : UInt32 := 0
  deriving DecidableEq, Repr

/-- A counter is read as the number it shows. -/
scoped instance counterCoe : Coe UInt32 Nat := ⟨UInt32.toNat⟩

/-- How far a transfer has come. -/
structure Progress where
  stats : Stats := {}
  /-- What was read so far; a write leaves it empty. -/
  received : List UInt8 := []

/-- Computations that move data. Progress made before a failure stays. -/
abbrev StreamM (A : Arch) := ExceptT Error (StateT Progress (Dialogue A))

/-- How a transfer ended. -/
inductive Outcome where
  | finished (stats : Stats)
  | failed (e : TransferError)
  /-- The wait for the algorithm ran out of patience. -/
  | undecided

/-- Moves data through one ring buffer. -/
structure Engine where
  ring : Ring
  config : TransferConfig := {}

namespace Engine

variable {A : Arch}

/-- The target address of a place in the ring. -/
def address (n : Nat) : Link A A.Addr :=
  match A.addr? n with
  | some a => return a
  | none => throw (.invalidRing "buffer lies outside the target's address space")

/-- Writes a pointer word. -/
def putPointer (place value : Nat) : Link A Unit := do
  writeWord .full (← address place) value

/-- Empties the ring, and starts the algorithm. A target that is busy is not touched. -/
def begin (e : Engine) (flow : Flow) : RunM A Unit := do
  if (← get).busy then
    note .alreadyRunning
    throw .alreadyRunning
  Runner.requireHalted (A := A)
  putPointer (A := A) e.ring.wpAddr e.ring.fifoStart
  putPointer (A := A) e.ring.rpAddr e.ring.fifoStart
  match ← outcome Runner.start with
  | .ok () => return ()
  | .error err =>
    note (.startFailed flow)
    throw err

/-- Reads the partner's pointer. -/
def partnerPointer (flow : Flow) (place : A.Addr) : StreamM A Nat := do
  match ← outcome (readWord .full place) with
  | .ok ptr => return ptr
  | .error err =>
    note (.pointerUnread flow)
    throw err

/-- Refuses a partner's pointer that is zero or out of place. -/
def checkPointer (e : Engine) (flow : Flow) (ptr : Nat) : StreamM A Unit := do
  if ptr = 0 then
    note (.abortedByTarget flow)
    throw .operationFailed
  if !e.ring.isValidPtr ptr then
    note (.pointerCorrupted flow ptr)
    throw (.corruptedPointer ptr)

/-- Lets the rest of the host work, and stops if it is shutting down. -/
def giveWay : StreamM A Unit := do
  host .keepAlive
  if ← host .shutdownPending then
    throw .interrupted

/-- Backs off for a while. -/
def backOff (e : Engine) : StreamM A Unit := do
  host (.sleep e.config.pollInterval)
  giveWay

/-- Counts a change. -/
def count (f : Stats → Stats) : StreamM A Unit :=
  modify fun p => { p with stats := f p.stats }

/-- Counts a piece of `len` bytes, and whether it took the host's pointer back to the start. -/
def countChunk (len : Nat) (wrapped : Bool) : StreamM A Unit :=
  count fun s =>
    { s with bytes := s.bytes + len, chunks := s.chunks + 1, wraps := s.wraps + wrapped.toUInt32 }

/-- Brings a transfer to its end: tells the algorithm if the host gave up, waits for it to
    halt, and looks whether it signalled a failure of its own. `own` is the place of the host's
    pointer word, `partner` that of the algorithm's. -/
def conclude (e : Engine) (flow : Flow) (patience own partner : Nat) (moved : Except Error Unit)
    (stats : Stats) : StateT (Held A) (Dialogue A) Outcome := do
  if let .error _ := moved then
    if let .error _ ← (putPointer (A := A) own 0).run then
      note (.abortFailed flow)
  match ← (Runner.wait patience e.config.waitTimeout).run with
  | .ok .undecided => return .undecided
  | .error waitError =>
    note (.waitFailed flow)
    match moved with
    | .error err =>
      return .failed { offset := stats.bytes, error := err, waitError := some waitError }
    | .ok () => return .failed { offset := stats.bytes, error := waitError }
  | .ok .completed =>
    match moved with
    | .error err => return .failed { offset := stats.bytes, error := err }
    | .ok () =>
      match ← (do readWord .full (← address partner) : Link A Nat).run with
      | .error err => return .failed { offset := stats.bytes, error := err }
      | .ok 0 =>
        note (.abortedByTarget flow)
        return .failed { offset := stats.bytes, error := .operationFailed }
      | .ok _ => return .finished stats

end Engine

end DebugLink
