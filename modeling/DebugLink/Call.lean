import DebugLink.Arch
import DebugLink.Error
import DebugLink.Note

/-!
# Operations at the boundary

Everything that reaches beyond the library is an operation with a type of answers: a *call* on
the target, which may fail; a question about what the target can do; a request to the host; or
a note for whoever reads along.
-/

namespace DebugLink

/-- What the core is doing. -/
inductive ExecState where
  | running
  /-- Stopped, and ready for debug requests. -/
  | halted
  /-- Executing on behalf of the debugger. -/
  | debugRunning
  /-- Held in reset. -/
  | reset
  | unknown
  deriving DecidableEq, Repr

/-- The name of a state. -/
def ExecState.name : ExecState → String
  | .running => "Running"
  | .halted => "Halted"
  | .debugRunning => "DebugRunning"
  | .reset => "Reset"
  | .unknown => "Unknown"

/-- All states. -/
def ExecState.all : List ExecState :=
  [.running, .halted, .debugRunning, .reset, .unknown]

/-- The state of a name. -/
def ExecState.ofName? (name : String) : Option ExecState :=
  all.find? (·.name = name)

/-- Options of a resume. -/
structure ResumeFlags where
  /-- Step over a breakpoint at the resume address. -/
  handleBreakpoints : Bool := false
  /-- The code runs for the debugger, not for the program being debugged. -/
  debugExecution : Bool := false
  deriving DecidableEq, Repr

namespace ResumeFlags

/-- Both options. -/
def all : ResumeFlags := { handleBreakpoints := true, debugExecution := true }

/-- The options as bits of a number. -/
def bits (f : ResumeFlags) : Nat :=
  f.handleBreakpoints.toNat + 2 * f.debugExecution.toNat

/-- The options named by the low two bits of a number; other bits mean nothing. -/
def ofBits (n : Nat) : ResumeFlags :=
  { handleBreakpoints := n.testBit 0, debugExecution := n.testBit 1 }

/-- How a set of options is shown. -/
def text (f : ResumeFlags) : String :=
  "ResumeFlags(" ++
    (match f.handleBreakpoints, f.debugExecution with
      | true, true => "HANDLE_BREAKPOINTS | DEBUG_EXECUTION"
      | true, false => "HANDLE_BREAKPOINTS"
      | false, true => "DEBUG_EXECUTION"
      | false, false => "0x0") ++ ")"

end ResumeFlags

/-- Byte order of words in target memory. -/
inductive Endian where
  | little | big
  deriving DecidableEq, Repr

/-- A given number of bytes. -/
abbrev Bytes (n : Nat) : Type := { bs : List UInt8 // bs.length = n }

/-- An access over the debug link. -/
inductive Call (A : Arch) where
  | read (address : A.Addr) (len : Nat)
  | write (address : A.Addr) (data : List UInt8)
  | readReg (reg : A.Reg)
  | writeReg (reg : A.Reg) (value : A.Addr)
  /-- Asks the core to stop; whether it did shows in a later poll. -/
  | halt
  /-- Continues at an address, or where the core stopped. -/
  | resume (address : Option A.Addr) (flags : ResumeFlags)
  /-- A look at what the core is doing: the only way to learn that it stopped. -/
  | poll
  /-- Answers `false` if the breakpoint could not be set. -/
  | addBreakpoint (address : A.Addr) (kind : A.Kind)
  /-- Answers `false` if there was no such breakpoint. -/
  | removeBreakpoint (address : A.Addr) (kind : A.Kind)
  /-- Is the memory management unit on? -/
  | mmuEnabled

/-- What a call answers when it succeeds. -/
@[reducible] def Call.Answer {A : Arch} : Call A → Type
  | .read _ len => Bytes len
  | .write .. | .writeReg .. | .halt | .resume .. => Unit
  | .readReg _ => A.Addr
  | .poll => ExecState
  | .addBreakpoint .. | .removeBreakpoint .. | .mmuEnabled => Bool

/-- A question about the target that costs no access. -/
inductive Feature where
  | endian
  /-- Can breakpoints be set? -/
  | breakpoints
  /-- Can the memory management unit be asked about? -/
  | mmu
  deriving DecidableEq, Repr

/-- What is answered to such a question. -/
@[reducible] def Feature.Answer : Feature → Type
  | .endian => Endian
  | .breakpoints | .mmu => Bool

/-- A request to the process that the library runs in. -/
inductive HostRequest where
  /-- The clock, in milliseconds; it starts anywhere and never goes back. -/
  | now
  /-- Suspends the caller for at least this many milliseconds. -/
  | sleep (ms : Nat)
  /-- Lets the rest of the host do its work. -/
  | keepAlive
  /-- Has the host been asked to shut down? -/
  | shutdownPending
  deriving DecidableEq, Repr

/-- What is answered to such a request. -/
@[reducible] def HostRequest.Answer : HostRequest → Type
  | .now => UInt64
  | .sleep _ | .keepAlive => Unit
  | .shutdownPending => Bool

/-- Anything that reaches beyond the library. -/
inductive Op (A : Arch) where
  | call (c : Call A)
  | feature (f : Feature)
  | host (r : HostRequest)
  | note (n : Note)

/-- What an operation answers. -/
@[reducible] def Op.Answer {A : Arch} : Op A → Type
  | .call c => Except TargetError c.Answer
  | .feature f => f.Answer
  | .host r => r.Answer
  | .note _ => Unit

end DebugLink
