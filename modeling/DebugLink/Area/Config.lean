/-!
# Where the working areas lie

The window of target RAM that scratch regions are taken from. Which of the two addresses counts
is decided when the window is opened: the virtual one while the target's memory management unit
is on, the physical one otherwise.
-/

namespace DebugLink

/-- Where, and how much, target memory may be used for working areas. -/
structure AreaConfig (w : Nat) where
  size : Nat := 0
  phys : Option (BitVec w) := none
  virt : Option (BitVec w) := none
  /-- Save the contents of an area when it is handed out, and put them back on release. -/
  backup : Bool := false
  deriving DecidableEq, Repr

namespace AreaConfig

variable {w : Nat} (c : AreaConfig w)

/-- The window is cut down to whole words. -/
def usable : Nat :=
  c.size / 4 * 4

/-- The address that counts while the memory management unit is on, or off. -/
def window? (mmu : Bool) : Option (BitVec w) :=
  if mmu then c.virt else c.phys

end AreaConfig

end DebugLink
