import DebugLink.Area.Basic
import DebugLink.Memory

/-!
# Handing out working areas

The window is opened by the first request, so that the memory management unit is asked about as
late as possible. Requests are served from the lowest free block that is large enough.
-/

namespace DebugLink

/-- Computations on the working areas of a target. Changes made before a failure stay. -/
abbrev AreaM (A : Arch) := ExceptT Error (StateT (Areas A.width) (Dialogue A))

variable {A : Arch}

/-- Is the memory management unit on? If the target cannot tell, it counts as off. -/
def mmuOn : Link A Bool := do
  if ← feature .mmu then call (A := A) .mmuEnabled else return false

namespace Areas

/-- Reports every block. -/
def noteBlocks : List (Block A.width) → Dialogue A Unit
  | [] => return ()
  | b :: rest => do
    note (.block b.backup.isSome b.free b.address.toNat
      (offset b.address (b.size - 1)).toNat b.size)
    noteBlocks rest

/-- Reports the layout. -/
def noteLayout : StateT (Areas A.width) (Dialogue A) Unit := do
  noteBlocks (← get).layout

/-- The room that the next request will find. Unlike `available` this asks the target which
    window would be opened. -/
def availableNow (s : Areas A.width) : Link A Nat := do
  if s.opened then return s.available
  else
    match s.config.window? (← mmuOn) with
    | some _ => return s.config.usable
    | none => return 0

/-- Opens the window as one free block. -/
def openWindow (requested : Nat) : AreaM A Unit := do
  let mmu ← mmuOn (A := A)
  let config := (← get).config
  match config.window? mmu with
  | none =>
    note (if mmu then .noVirtualWindow else .noPhysicalWindow)
    throw (.resourceNotAvailable requested 0)
  | some base =>
    note (if mmu then .virtualWindow base.toNat else .physicalWindow base.toNat)
    if Arch.Fits base config.usable then
      modify fun s =>
        match s.insert { address := base, size := config.usable, free := true } with
        | (i, s) => { s with order := s.order ++ [i] }
    else
      note (.windowWraps base.toNat config.usable)
      throw (.resourceNotAvailable requested 0)

/-- Saves the memory under the block in slot `i`. If it cannot be read, the block goes straight
    back to the free ones. -/
def saveBackup (i : Nat) : AreaM A Unit := do
  let b := (← get).block i
  modify (·.modifyBlock i ({ · with backup := none }))
  match ← outcome (readBuffer b.address b.size) with
  | .ok bytes => modify (·.modifyBlock i ({ · with backup := some bytes.val }))
  | .error e =>
    modify merge
    throw e

/-- Hands out an area of at least `size` bytes. -/
def allocTry (size : Nat) : AreaM A (Area A.width) := do
  match roundUp? size with
  | none => throw (.resourceNotAvailable size (← get).available)
  | some n =>
    if !(← get).opened then
      openWindow n
    match (← get).firstFit? n with
    | none => throw (.resourceNotAvailable n (← get).available)
    | some i =>
      modify (·.split i n)
      if (← get).config.backup then
        saveBackup i
      modify (·.modifyBlock i ({ · with free := false }))
      let s ← get
      let address := (s.block i).address
      note (.allocated n address.toNat)
      noteLayout (A := A)
      return {
        id := { owner := s.id, index := i, generation := (s.slots.getD i default).generation }
        address
        size := n }

/-- Hands out an area of at least `size` bytes, and warns if there is none. -/
def alloc (size : Nat) : AreaM A (Area A.width) := do
  match ← outcome (allocTry size) with
  | .ok area => return area
  | .error e =>
    match e with
    | .resourceNotAvailable requested _ => note (.notEnough requested)
    | _ => pure ()
    throw e

/-- Tries `size` bytes, then half of them, and so on, as long as that is not below `least`. -/
def allocHalving (least size : Nat) (hl : 0 < least) : AreaM A (Area A.width) := do
  match ← outcome (allocTry size) with
  | .ok area => return area
  | .error (.resourceNotAvailable requested available) =>
    if h : least ≤ size / 2 then
      allocHalving least (size / 2) hl
    else
      note (.noneLargeEnough least)
      throw (.resourceNotAvailable requested available)
  | .error e => throw e
termination_by size
decreasing_by omega

/-- Hands out the first area that can be had among `preferred` bytes, half of them, and so on
    down to `least`. -/
def allocShrinking (preferred least : Nat) : AreaM A (Area A.width) :=
  allocHalving (max least 1) (max preferred (max least 1)) (by omega)

end Areas

end DebugLink
