import DebugLink.Target

/-!
# Hosts

`ManualHost` has a clock that only moves while somebody sleeps, and counts what it is asked.
`Signals` are flags shared between those who may ask for a shutdown and the hosts that watch
for it.
-/

namespace DebugLink

/-- A host whose clock moves by sleeping alone. -/
structure ManualHost where
  now : UInt64 := 0
  sleeps : Nat := 0
  keepAlives : Nat := 0
  /-- A shutdown is pending once there were this many sleeps. -/
  shutdownAfter : Option Nat := none
  deriving DecidableEq, Repr

namespace ManualHost

/-- What the host answers to a request. -/
def perform : (r : HostRequest) → ManualHost → r.Answer × ManualHost
  | .now, h => (h.now, h)
  | .sleep ms, h => ((), { h with now := h.now + UInt64.ofNat ms, sleeps := h.sleeps + 1 })
  | .keepAlive, h => ((), { h with keepAlives := h.keepAlives + 1 })
  | .shutdownPending, h => (h.shutdownAfter.any (· ≤ h.sleeps), h)

/-- The manual host as a host. -/
def host : Host ManualHost where
  perform := perform

end ManualHost

/-- Shutdown flags, and the clock that all hosts share. -/
structure Signals where
  /-- The flags that were raised. -/
  raised : List Nat := []
  now : UInt64 := 0
  deriving DecidableEq, Repr

namespace Signals

/-- Asks all hosts that watch a flag to shut down. A flag that was raised stays so. -/
def request (s : Signals) (flag : Nat) : Signals :=
  { s with raised := flag :: s.raised }

/-- Was the flag raised? -/
def isPending (s : Signals) (flag : Nat) : Bool :=
  s.raised.contains flag

/-- What a host that watches `flag` answers to a request. -/
def perform (flag : Nat) : (r : HostRequest) → Signals → r.Answer × Signals
  | .now, s => (s.now, s)
  | .sleep ms, s => ((), { s with now := s.now + UInt64.ofNat ms })
  | .keepAlive, s => ((), s)
  | .shutdownPending, s => (s.isPending flag, s)

/-- The host that watches `flag`. -/
def host (flag : Nat) : Host Signals where
  perform := perform flag

end Signals

/-- A host of either kind. -/
def Host.either {η θ : Type} (h : Host η) (k : Host θ) : Host (η ⊕ θ) where
  perform := fun r s =>
    match s with
    | .inl x => ((h.perform r x).1, .inl (h.perform r x).2)
    | .inr y => ((k.perform r y).1, .inr (k.perform r y).2)

end DebugLink
