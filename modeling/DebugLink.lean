import DebugLink.Arch.CortexM
import DebugLink.Arch.Plain
import DebugLink.Arch.RiscV
import DebugLink.Main
import DebugLink.Proofs.Area.Failure
import DebugLink.Proofs.Area.Foresight
import DebugLink.Proofs.Area.Halving
import DebugLink.Proofs.Area.History
import DebugLink.Proofs.Area.InSpace
import DebugLink.Proofs.Area.Invisible
import DebugLink.Proofs.Area.Kept
import DebugLink.Proofs.Area.Past
import DebugLink.Proofs.Area.Reachable
import DebugLink.Proofs.Area.Release
import DebugLink.Proofs.Area.Stale
import DebugLink.Proofs.Chip.Areas
import DebugLink.Proofs.Chip.Delivery
import DebugLink.Proofs.Chip.FlashWrite
import DebugLink.Proofs.Chip.Launch
import DebugLink.Proofs.Chip.Loader
import DebugLink.Proofs.Chip.Transfer
import DebugLink.Proofs.Play
import DebugLink.Proofs.RegisterNames
import DebugLink.Proofs.Registry
import DebugLink.Proofs.Ring
import DebugLink.Proofs.Ring.Slack
import DebugLink.Proofs.Runner.Abandon
import DebugLink.Proofs.Runner.Apart
import DebugLink.Proofs.Runner.Breakpoints
import DebugLink.Proofs.Runner.Cancel
import DebugLink.Proofs.Runner.Deadline
import DebugLink.Proofs.Runner.Endings
import DebugLink.Proofs.Runner.FailedStart
import DebugLink.Proofs.Runner.Failures
import DebugLink.Proofs.Runner.Guard
import DebugLink.Proofs.Runner.Handover
import DebugLink.Proofs.Runner.Idle
import DebugLink.Proofs.Runner.InSpace
import DebugLink.Proofs.Runner.Lingering
import DebugLink.Proofs.Runner.Machine
import DebugLink.Proofs.Runner.OneAtATime
import DebugLink.Proofs.Runner.Refused
import DebugLink.Proofs.Runner.Steady
import DebugLink.Proofs.Runner.Transparency
import DebugLink.Proofs.Sim.Consumer
import DebugLink.Proofs.Sim.Launch
import DebugLink.Proofs.Sim.Memory
import DebugLink.Proofs.Sim.Play
import DebugLink.Proofs.Sim.Producer
import DebugLink.Proofs.Sim.ReadDelivery
import DebugLink.Proofs.Sim.Transfer
import DebugLink.Proofs.Sim.WriteDelivery
import DebugLink.Proofs.Transfer.Abort
import DebugLink.Proofs.Transfer.Alignment
import DebugLink.Proofs.Transfer.Cancel
import DebugLink.Proofs.Transfer.Consumer
import DebugLink.Proofs.Transfer.Containment
import DebugLink.Proofs.Transfer.InSpace
import DebugLink.Proofs.Transfer.Outcome
import DebugLink.Proofs.Transfer.ReadSafety
import DebugLink.Proofs.Transfer.Rounds
import DebugLink.Proofs.Transfer.WriteSafety
import DebugLink.Session
import DebugLink.Sim.Basic
import DebugLink.Sim.Flat
import DebugLink.Sim.Trace
import DebugLink.Transfer.Read
import DebugLink.Transfer.Write
