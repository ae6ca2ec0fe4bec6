import DebugLink.Area.Alloc

/-!
# Releasing working areas

An area is released whether or not its former contents could be put back; the failure is still
reported. Stale handles and handles on another target's areas change nothing.
-/

namespace DebugLink.Areas

variable {A : Arch}

/-- Puts back what was saved for the block in slot `i`. -/
def restore (s : Areas A.width) (i : Nat) : Link A Unit :=
  if s.config.backup then
    match (s.block i).backup with
    | none => return ()
    | some bytes => do
      match ← outcome (writeBuffer (s.block i).address bytes) with
      | .ok () => return ()
      | .error e =>
        note (.areaNotRestored (s.block i).size (s.block i).address.toNat)
        throw e
  else return ()

/-- The slot that a handle names, provided it is one of these areas' and still holds. -/
def lookup (s : Areas A.width) (id : AreaId) : Dialogue A (Option Nat) := do
  if id.owner = s.id then return s.slotOf? id
  else
    note .foreignArea
    return none

/-- Releases an area, and puts back its former contents if `putBack` says so. -/
def freeRestore (area : Area A.width) (putBack : Bool) : AreaM A Unit := do
  match ← (← get).lookup area.id with
  | none =>
    note (.staleArea area.address.toNat)
    throw .staleHandle
  | some i =>
    let restored ← if putBack then outcome ((← get).restore i) else pure (.ok ())
    modify (·.release i)
    note (.freed area.size area.address.toNat)
    modify merge
    noteLayout (A := A)
    match restored with
    | .ok () => return ()
    | .error e => throw e

/-- Releases an area and puts back its former contents. -/
def free (area : Area A.width) : AreaM A Unit :=
  freeRestore area true

/-- Releases those of the given slots that are handed out. What cannot be put back does not
    keep the others. -/
def releaseEach (putBack : Bool) : List Nat → StateT (Areas A.width) (Dialogue A) Unit
  | [] => return ()
  | i :: rest => do
    if !((← get).block i).free then
      if putBack then
        let _ ← ((← get).restore i).run
      modify (·.release i)
    releaseEach putBack rest

/-- Releases all areas, and puts back their former contents if `putBack` says so. -/
def freeAllRestore (putBack : Bool) : StateT (Areas A.width) (Dialogue A) Unit := do
  releaseEach putBack (← get).order
  modify merge
  noteLayout

/-- Releases all areas and closes the window. -/
def freeAll : StateT (Areas A.width) (Dialogue A) Unit := do
  freeAllRestore true
  modify discard

/-- Releases all areas before the window is moved or resized. -/
def reconfigure (config : AreaConfig A.width) : StateT (Areas A.width) (Dialogue A) Unit := do
  freeAll
  modify (·.setConfig config)

end DebugLink.Areas
