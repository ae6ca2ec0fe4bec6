import DebugLink.Image
import DebugLink.Text.Hex
import DebugLink.Text.Quoted

/-!
# Errors

Two layers of failure. A `TargetError` is what the target answers to a single access; an
`Error` is what an operation of this library ends in, and every target error is one of them.
-/

namespace DebugLink

/-- Why a target did not carry out an access. -/
inductive TargetError where
  /-- No reason given. -/
  | nonFatal
  /-- A system error number. -/
  | errno (code : UInt8)
  | unaligned
  /-- The link or the target broke down. -/
  | fatal (why : String)
  deriving DecidableEq, Repr

/-- How an operation failed. -/
inductive Error where
  /-- No free block is large enough; `available` is the largest there is. -/
  | resourceNotAvailable (requested available : Nat)
  /-- The handle was released before, or belongs to other areas. -/
  | staleHandle
  /-- An algorithm can only be started on a halted target. -/
  | notHalted
  /-- Algorithms never nest. -/
  | alreadyRunning
  /-- There is nothing to wait for. -/
  | notRunning
  /-- The algorithm did not halt before the deadline. -/
  | timedOut
  /-- The algorithm halted at `pc`, which is not its exit point. -/
  | unexpectedExit (pc : Nat)
  | invalidImage (why : ImageError)
  /-- The algorithm put a zero into its pointer word. -/
  | operationFailed
  /-- The algorithm published a pointer that no partner could legitimately publish. -/
  | corruptedPointer (ptr : Nat)
  /-- The ring made no progress for too long. -/
  | streamTimeout
  /-- The host is shutting down. -/
  | interrupted
  | invalidRing (why : String)
  /-- The range runs past the end of the address space. -/
  | addressWrap (address len : Nat)
  | unsupported (what : String)
  | unalignedAccess
  | nonFatal
  | errno (code : UInt8)
  | fatal (why : String)
  deriving DecidableEq, Repr

namespace Error

/-- A refused access, as the failure of the operation that needed it. -/
def ofTarget : TargetError → Error
  | .nonFatal => .nonFatal
  | .errno code => .errno code
  | .unaligned => .unalignedAccess
  | .fatal why => .fatal why

/-- Does the error mean that the caller did something out of order, rather than that the
    target failed? Retrying such a call unchanged cannot help. -/
def isMisuse : Error → Bool
  | .notHalted | .alreadyRunning | .notRunning | .staleHandle => true
  | _ => false

open Text in
/-- The wording of an error. -/
def message : Error → String
  | .resourceNotAvailable requested available =>
    "Not enough working area available (requested " ++ toString requested
      ++ ", largest free block " ++ toString available ++ ")."
  | .staleHandle => "Working area handle is stale."
  | .notHalted => "Target not halted."
  | .alreadyRunning => "Target is already running an algorithm."
  | .notRunning => "Target is not running an algorithm."
  | .timedOut => "Timed out while waiting for the algorithm to halt."
  | .unexpectedExit pc => "Algorithm halted at unexpected address " ++ hex pc ++ "."
  | .invalidImage why => "Invalid algorithm image: " ++ why.message
  | .operationFailed => "Algorithm aborted by target."
  | .corruptedPointer ptr => "Corrupted fifo pointer " ++ hexWord ptr ++ "."
  | .streamTimeout => "Timeout waiting for algorithm, a target reset is recommended."
  | .interrupted => "Interrupted by a shutdown request."
  | .invalidRing why => "Invalid ring buffer: " ++ why
  | .addressWrap address len =>
    "Address + size wrapped (" ++ hex address ++ ", " ++ hex len ++ ")."
  | .unsupported what => "Target does not support " ++ what ++ "."
  | .unalignedAccess => "Target reported an unaligned access."
  | .nonFatal => "Target reported a non-fatal error."
  | .errno code => "Target reported a non-fatal error (errno " ++ toString code.toNat ++ ")."
  | .fatal why => "Target threw a fatal error: " ++ quoted why

end Error

/-- How a transfer failed. A failed transfer usually leaves an aborted algorithm on the target,
    which then needs a reset. -/
structure TransferError where
  /-- Bytes that went through the ring before the failure. -/
  offset : Nat
  /-- What stopped the transfer. -/
  error : Error
  /-- What went wrong in the wait that followed, if the transfer had already stopped. -/
  waitError : Option Error := none
  deriving DecidableEq, Repr

/-- The wording of a `TransferError`. -/
def TransferError.message (e : TransferError) : String :=
  "Transfer failed at offset " ++ Text.hex e.offset ++ ": " ++ e.error.message ++
    match e.waitError with
    | none => ""
    | some w => " (waiting for the algorithm also failed: " ++ w.message ++ ")"

end DebugLink
