/-!
# Algorithm images

An image says how an algorithm that already sits in target memory is run: where it starts and
ends, which memory blocks and registers it is handed, and which of them are read back. It
depends on the architecture only through the width `w` of an address and the type `ι` of the
architecture's own description of an algorithm.
-/

namespace DebugLink

/-- Which way a parameter travels, as the algorithm sees it. -/
inductive Direction where
  /-- Written to the target before the algorithm starts. -/
  | input
  /-- Read back once the algorithm completes. -/
  | output
  /-- Both. -/
  | both
  deriving DecidableEq, Repr

/-- Is the parameter written before the start? -/
def Direction.isInput : Direction → Bool
  | .input | .both => true
  | .output => false

/-- Is the parameter read back after the halt? -/
def Direction.isOutput : Direction → Bool
  | .output | .both => true
  | .input => false

/-- A block of target memory exchanged with an algorithm. Its length is that of `data`, also
    when the block is only read back. -/
structure MemParam (w : Nat) where
  address : BitVec w
  data : List UInt8
  direction : Direction
  /-- The buffer belongs to the image; a lent buffer stays with its lender. -/
  owned : Bool := true
  deriving DecidableEq, Repr

namespace MemParam

/-- A block written before the start. -/
def input {w : Nat} (address : BitVec w) (data : List UInt8) : MemParam w :=
  { address, data, direction := .input }

/-- A block of `len` bytes read back after the halt; it holds zeros until then. -/
def output {w : Nat} (address : BitVec w) (len : Nat) : MemParam w :=
  { address, data := List.replicate len 0, direction := .output }

/-- The buffer, if it belongs to the image. -/
def ownedData? {w : Nat} (p : MemParam w) : Option (List UInt8) :=
  if p.owned then some p.data else none

end MemParam

/-- A core register exchanged with an algorithm, named as the architecture names it. -/
structure RegParam (w : Nat) where
  name : String
  value : BitVec w
  direction : Direction
  deriving DecidableEq, Repr

/-- A register that is read back after the halt; its value is zero until then. -/
def RegParam.output {w : Nat} (name : String) : RegParam w :=
  { name, value := 0, direction := .output }

/-- How long a run waits for its algorithm unless the image says otherwise, in
    milliseconds. -/
def defaultTimeout : Nat := 10000

/-- An algorithm and the parameters it is run with. -/
structure Image (w : Nat) (ι : Type) where
  /-- Where execution starts. -/
  entry : BitVec w
  /-- Where a breakpoint catches the algorithm. Zero stands for an algorithm that halts on its
      own; then any halt counts as completion. -/
  exit : BitVec w
  mem : List (MemParam w) := []
  regs : List (RegParam w) := []
  info : ι
  /-- Patience of a run, in milliseconds. -/
  timeout : Nat := defaultTimeout

/-- Why an image is refused. -/
inductive ImageError where
  | unknownRegister (name : String)
  | misalignedEntry
  | misalignedExit
  | zeroTimeout
  /-- A reason of the architecture's own. -/
  | arch (why : String)
  deriving DecidableEq, Repr

/-- The wording of an `ImageError`. -/
def ImageError.message : ImageError → String
  | .unknownRegister name => "unknown register `" ++ name ++ "`"
  | .misalignedEntry => "misaligned entry point"
  | .misalignedExit => "misaligned exit point"
  | .zeroTimeout => "timeout must be non-zero"
  | .arch why => why

end DebugLink
