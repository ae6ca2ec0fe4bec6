import DebugLink.Area.Release

/-!
# Devices

What the host keeps for one target: its working areas, and the guard that keeps algorithms from
nesting.
-/

namespace DebugLink

/-- The host's side of a target. -/
structure Device (A : Arch) where
  areas : Areas A.width
  /-- An algorithm is running, or was left running by a timeout. -/
  busy : Bool := false

/-- A target that nothing was done with yet. `id` tells its working areas from all others. -/
def Device.fresh {A : Arch} (id : Nat) (config : AreaConfig A.width) : Device A :=
  { areas := { id, config } }

end DebugLink
