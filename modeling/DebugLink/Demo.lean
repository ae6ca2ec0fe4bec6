import DebugLink.Chip.Basic
import DebugLink.Device
import DebugLink.Sim.Hosts
import DebugLink.Transfer.Write

/-!
# Demonstration

Programs the flash of the emulated chip through its loader: the stub and a ring buffer go into
working areas, the data is streamed through the ring, and afterwards the flash is read back. A
second attempt must fail, because flash that was not erased cannot be programmed.
-/

namespace DebugLink.Demo

/-- How the demonstration failed. -/
inductive Failure where
  | link (e : Error)
  | image (e : ImageError)
  | ring (e : RingFault)
  | transfer (e : TransferError)
  | status (value : Nat)
  | verification
  | overwritten
  | roomLost
  | undecided
  deriving DecidableEq, Repr

/-- The wording of a `Failure`. -/
def Failure.message : Failure → String
  | .link e => e.message
  | .image e => e.message
  | .ring e => (Error.invalidRing e.message).message
  | .transfer e => e.message
  | .status value => "flash loader reported status " ++ Text.hex value
  | .verification => "verification failed"
  | .overwritten => "programming non-erased flash succeeded"
  | .roomLost => "working areas were not released"
  | .undecided => "the transfer did not come to an end"

/-- Computations on the host's side of a target. -/
abbrev DemoM (A : Arch) := ExceptT Failure (StateT (Device A) (Dialogue A))

variable {A : Arch}

/-- A step that only needs the link. -/
def onLink {α : Type} (x : Link A α) : DemoM A α := do
  match ← (x.run : Dialogue A _) with
  | .ok a => return a
  | .error e => throw (.link e)

/-- A step on the working areas. -/
def onAreas {α : Type} (x : AreaM A α) : DemoM A α := do
  let device ← get
  let (result, areas) ← (x.run.run device.areas : Dialogue A _)
  set { device with areas }
  match result with
  | .ok a => return a
  | .error e => throw (.link e)

/-- Which looks at the target a wait makes at most. -/
def patience : Nat := 1 <<< 62

/-- The image that runs the loader at `code` on the given ring. Its first register parameter
    brings the status back. -/
def loaderImage (code : Chip.Word) (ring : Ring) (address : Chip.Word) (halfwords : Nat) :
    Image 32 CortexM.Mode where
  entry := code
  exit := code + Chip.loaderExit
  regs :=
    [⟨"r0", Chip.flashRegs, .both⟩,
      ⟨"r1", BitVec.ofNat 32 halfwords, .input⟩,
      ⟨"r2", BitVec.ofNat 32 ring.wpAddr, .input⟩,
      ⟨"r3", BitVec.ofNat 32 (ring.wpAddr + ring.size), .input⟩,
      ⟨"r4", address, .input⟩]
  info := .thread

/-- Streams `data` to the loader at `code`, through a ring in `buffer`; answers what the
    transfer did and the loader's status. -/
def stream (code buffer : Area 32) (address : Chip.Word) (data : List UInt8) :
    DemoM cortexM (Stats × Chip.Word) := do
  let ring ←
    match Ring.ofArea? buffer 2 with
    | .ok ring => pure ring
    | .error e => throw (.ring e)
  let runner ←
    match Runner.ofImage? (A := cortexM)
      (loaderImage code.address ring address (data.length / 2)) with
    | .ok runner => pure runner
    | .error e => throw (.image e)
  let device ← get
  let engine : Engine := { ring }
  let (ended, held) ←
    ((engine.write patience data).run { runner, busy := device.busy } : Dialogue cortexM _)
  set { device with busy := held.busy }
  match ended with
  | .undecided => throw .undecided
  | .failed e => throw (.transfer e)
  | .finished stats =>
    return (stats, ((held.runner.image.regs.head?.map (·.value)).getD 0))

/-- Programs `data` into flash at `address`. Both working areas are released in any case. -/
def flashWrite (address : Chip.Word) (data : List UInt8) : DemoM cortexM Stats := do
  let code ← onAreas (A := cortexM) (Areas.alloc Chip.loaderStub.length)
  match ← outcome (onLink (A := cortexM) (writeBuffer code.address Chip.loaderStub)) with
  | .error e =>
    onAreas (A := cortexM) (Areas.free code)
    throw e
  | .ok () => pure ()
  let buffer ←
    match ← outcome (onAreas (A := cortexM) (Areas.allocShrinking (16 * 1024) 256)) with
    | .ok buffer => pure buffer
    | .error e => do
      note .noRoomForRing
      onAreas (A := cortexM) (Areas.free code)
      throw e
  note (.ringPlaced buffer.size buffer.address.toNat)
  let streamed ← outcome (stream code buffer address data)
  onAreas (A := cortexM) (Areas.free buffer)
  onAreas (A := cortexM) (Areas.free code)
  match streamed with
  | .error e => throw e
  | .ok (stats, status) =>
    if status &&& Chip.programmingError ≠ 0 then
      throw (.status status.toNat)
    return stats

/-- `n` bytes that look random. -/
def noise : Nat → UInt32 → List UInt8
  | 0, _ => []
  | n + 1, seed =>
    let seed := seed ^^^ (seed <<< 13)
    let seed := seed ^^^ (seed >>> 17)
    let seed := seed ^^^ (seed <<< 5)
    seed.toUInt8 :: noise n seed

/-- What is programmed into the flash. -/
def firmware : List UInt8 :=
  noise (96 * 1024) 0x12345678

/-- The name of the target. -/
def targetName : String := "stm32f1x.cpu"

/-- Computations that tell something on the way. -/
abbrev ScriptM :=
  ExceptT Failure (StateT (List String) (StateT (Device cortexM) (Dialogue cortexM)))

/-- Tells a line. -/
def say (line : String) : ScriptM Unit :=
  modify (· ++ [line])

/-- The demonstration on one target. -/
def script : ScriptM Unit := do
  let address := BitVec.ofNat 32 Chip.flashBase
  let stats ← flashWrite address firmware
  say ("wrote " ++ toString stats.bytes ++ " bytes to " ++ targetName ++ " in "
    ++ toString stats.chunks ++ " chunks (" ++ toString stats.stalls ++ " stalls, "
    ++ toString stats.wraps ++ " wraps)")
  let readback ← onLink (readBuffer (A := cortexM) address firmware.length)
  if readback.val ≠ firmware then
    throw .verification
  say ("verified " ++ toString firmware.length ++ " bytes")
  match ← outcome (flashWrite address firmware) with
  | .ok _ => throw .overwritten
  | .error e => say ("second write failed as expected: " ++ e.message)
  let device ← (get : DemoM cortexM (Device cortexM))
  let room ← onLink (A := cortexM) (Areas.availableNow device.areas)
  if room ≠ Chip.ramSize then
    throw .roomLost

/-- The working areas of the demonstration fill the chip's RAM, and leave no trace in it. -/
def config : AreaConfig 32 where
  size := Chip.ramSize
  phys := some (BitVec.ofNat 32 Chip.ramBase)
  backup := true

/-- What the demonstration tells, and how it failed if it did. -/
def report : List String × Option Failure :=
  let scene : Scene Chip ManualHost := { target := .fresh, host := {} }
  let played :=
    ((script.run.run []).run (Device.fresh 0 config)).run Chip.target ManualHost.host scene
  match played.1.1 with
  | (.ok (), lines) => (lines, none)
  | (.error e, lines) => (lines, some e)

end DebugLink.Demo
