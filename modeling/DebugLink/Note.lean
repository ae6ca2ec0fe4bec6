import DebugLink.Text.Hex

/-!
# Notes

What the library and its simulated targets report while they work. A note is a value; its
wording is a function of it, so that reporting costs nothing where nobody reads along.
-/

namespace DebugLink

/-- How important a note is. -/
inductive Level where
  | error | warn | info | debug | trace
  deriving DecidableEq, Repr

/-- Position of a level, the most important one first. -/
def Level.rank : Level → Nat
  | .error => 0
  | .warn => 1
  | .info => 2
  | .debug => 3
  | .trace => 4

/-- The name of a level, as it stands before a note. -/
def Level.name : Level → String
  | .error => "ERROR"
  | .warn => "WARN"
  | .info => "INFO"
  | .debug => "DEBUG"
  | .trace => "TRACE"

/-- All levels. -/
def Level.all : List Level :=
  [.error, .warn, .info, .debug, .trace]

/-- Which way a transfer goes: `write` carries host data to the algorithm, `read` brings the
    algorithm's data to the host. -/
inductive Flow where
  | write | read
  deriving DecidableEq, Repr

/-- The name of a transfer in notes. -/
def Flow.name : Flow → String
  | .write => "flash write"
  | .read => "flash read"

/-- The pointer word that the algorithm owns in such a transfer: it reads what the host writes,
    and the other way around. -/
def Flow.partnerPointer : Flow → String
  | .write => "read pointer"
  | .read => "write pointer"

/-- A report. Numbers are addresses, sizes and register values. -/
inductive Note where
  -- memory
  | wordUnread (address bits : Nat)
  | word (address value : Nat)
  | readingBuffer (len address : Nat)
  | writingBuffer (len address : Nat)
  | rangeWrapped (address len : Nat)
  -- working areas
  | notEnough (requested : Nat)
  | allocated (size address : Nat)
  | noneLargeEnough (least : Nat)
  | staleArea (address : Nat)
  | foreignArea
  | freed (size address : Nat)
  | physicalWindow (address : Nat)
  | virtualWindow (address : Nat)
  | noPhysicalWindow
  | noVirtualWindow
  | windowWraps (address size : Nat)
  | areaNotRestored (size address : Nat)
  | block (backup free : Bool) (first last size : Nat)
  -- running algorithms
  | alreadyRunning
  | notHalted
  | starting (entry exit : Nat)
  | exitNotArmed (exit : Nat)
  | timedOut
  | unexpectedHalt (pc exit : Nat)
  | breakpointGone (address : Nat)
  | registerNotRestored (name : String)
  | abandoning (entry : Nat)
  -- transfers
  | startFailed (flow : Flow)
  | abortFailed (flow : Flow)
  | waitFailed (flow : Flow)
  | abortedByTarget (flow : Flow)
  | noProgress
  | pointerUnread (flow : Flow)
  | pointerCorrupted (flow : Flow) (ptr : Nat)
  | progress (offset count wp rp : Nat)
  -- registry
  | addingTarget (name : String)
  | replacingTarget (name : String)
  | noSuchTarget (name : String)
  -- the emulated chip and its flash loader
  | chipResumed (address : Nat) (flags : String)
  | loaderExited (status : Nat)
  | unknownService (service address : Nat)
  | notErased (address : Nat)
  -- the demonstration
  | ringPlaced (size address : Nat)
  | noRoomForRing
  deriving DecidableEq, Repr

namespace Note

/-- How important the note is. -/
def level : Note → Level
  | .rangeWrapped .. | .noneLargeEnough .. | .noPhysicalWindow | .noVirtualWindow
  | .windowWraps .. | .areaNotRestored .. | .alreadyRunning | .exitNotArmed .. | .timedOut
  | .unexpectedHalt .. | .registerNotRestored .. | .startFailed .. | .abortFailed ..
  | .waitFailed .. | .abortedByTarget .. | .noProgress | .pointerUnread ..
  | .pointerCorrupted .. | .notErased .. => .error
  | .notEnough .. | .staleArea .. | .notHalted | .breakpointGone .. | .abandoning ..
  | .noSuchTarget .. | .unknownService .. | .noRoomForRing => .warn
  | .ringPlaced .. => .info
  | .word .. | .chipResumed .. => .trace
  | .wordUnread .. | .readingBuffer .. | .writingBuffer .. | .allocated .. | .foreignArea
  | .freed .. | .physicalWindow .. | .virtualWindow .. | .block .. | .starting ..
  | .progress .. | .addingTarget .. | .replacingTarget .. | .loaderExited .. => .debug

open Text in
/-- The wording of a note. -/
def text : Note → String
  | .wordUnread address bits =>
    "address: " ++ hex address ++ ", u" ++ toString bits ++ " read failed"
  | .word address value => "address: " ++ hex address ++ ", value: " ++ hex value
  | .readingBuffer len address =>
    "reading buffer of " ++ toString len ++ " byte at " ++ hex address
  | .writingBuffer len address =>
    "writing buffer of " ++ toString len ++ " byte at " ++ hex address
  | .rangeWrapped address len =>
    "address + size wrapped (" ++ hex address ++ ", " ++ hex len ++ ")"
  | .notEnough requested =>
    "not enough working area available(requested " ++ toString requested ++ ")"
  | .allocated size address =>
    "allocated new working area of " ++ toString size ++ " bytes at address " ++ hex address
  | .noneLargeEnough least =>
    "no large enough working area available, can't allocate " ++ toString least ++ " bytes"
  | .staleArea address =>
    "ignoring stale working area handle for address " ++ hex address
  | .foreignArea => "working area handle belongs to another target"
  | .freed size address =>
    "freed " ++ toString size ++ " bytes of working area at address " ++ hex address
  | .physicalWindow address =>
    "MMU disabled, using physical address for working memory " ++ hex address
  | .virtualWindow address =>
    "MMU enabled, using virtual address for working memory " ++ hex address
  | .noPhysicalWindow =>
    "No working memory available. Specify a physical working area address."
  | .noVirtualWindow =>
    "No working memory available. Specify a virtual working area address."
  | .windowWraps address size =>
    "working area at " ++ hex address ++ " (" ++ toString size
      ++ " bytes) wraps around the address space"
  | .areaNotRestored size address =>
    "failed to restore " ++ toString size ++ " bytes of working area at address "
      ++ hex address
  | .block backup free first last size =>
    (if backup then "b" else " ") ++ (if free then " " else "*") ++ " " ++ hexWord first
      ++ "-" ++ hexWord last ++ " (" ++ toString size ++ " bytes)"
  | .alreadyRunning => "target is already running an algorithm"
  | .notHalted => "target not halted"
  | .starting entry exit =>
    "starting algorithm at " ++ hex entry ++ " (exit point " ++ hex exit ++ ")"
  | .exitNotArmed exit => "could not set breakpoint at exit point " ++ hex exit
  | .timedOut => "timed out while waiting for target halted"
  | .unexpectedHalt pc exit =>
    "algorithm halted at " ++ hex pc ++ ", expected exit point " ++ hex exit
  | .breakpointGone address =>
    "exit point breakpoint at " ++ hex address ++ " was already gone"
  | .registerNotRestored name => "failed to restore register " ++ name
  | .abandoning entry => "abandoning algorithm at " ++ hex entry
  | .startFailed flow => "error starting target " ++ flow.name ++ " algorithm"
  | .abortFailed flow => "failed to abort target " ++ flow.name ++ " algorithm"
  | .waitFailed flow => "error waiting for target " ++ flow.name ++ " algorithm"
  | .abortedByTarget flow => flow.name ++ " algorithm aborted by target"
  | .noProgress => "timeout waiting for algorithm, a target reset is recommended"
  | .pointerUnread flow => "failed to get " ++ flow.partnerPointer
  | .pointerCorrupted flow ptr => "corrupted fifo " ++ flow.partnerPointer ++ " " ++ hex ptr
  | .progress offset count wp rp =>
    "offs " ++ hex offset ++ " count " ++ hex count ++ " wp " ++ hex wp ++ " rp " ++ hex rp
  | .addingTarget name => "adding target " ++ name
  | .replacingTarget name => "replacing target " ++ name
  | .noSuchTarget name => "no target named " ++ name
  | .chipResumed address flags => "resume at " ++ hexWord address ++ " (" ++ flags ++ ")"
  | .loaderExited status => "flash loader exited with status " ++ hex status
  | .unknownService service address =>
    "unknown HLE service " ++ toString service ++ " at " ++ hexWord address
  | .notErased address => "programming a non-erased halfword at " ++ hexWord address
  | .ringPlaced size address =>
    "using a " ++ toString size ++ " byte ring buffer at " ++ hexWord address
  | .noRoomForRing =>
    "no large enough working area available, can't do block memory writes"

/-- The note as a line: its level, and its wording. -/
def line (n : Note) : String :=
  n.level.name ++ " " ++ n.text

/-- Does the note matter to one who reads up to a level? -/
def isAtMost (limit : Level) (n : Note) : Bool :=
  n.level.rank ≤ limit.rank

end Note

end DebugLink
