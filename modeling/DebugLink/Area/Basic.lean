import DebugLink.Area.Config

/-!
# Working areas

The window is tiled by blocks, each free or handed out. Blocks live in slots: `order` lists the
slots in use by ascending address, `vacant` the ones that wait to be used again. A handle names
a slot and the generation of that slot it was issued for; since a slot's generation rises
whenever its block is released or given up, a handle stops working at that moment and never
works again.

This file holds what needs no target: looking up, splitting, merging and giving up blocks.
-/

namespace DebugLink

/-- A stretch of the window. -/
structure Block (w : Nat) where
  address : BitVec w
  size : Nat
  free : Bool
  /-- What the memory held when the block was handed out. -/
  backup : Option (List UInt8) := none
  deriving DecidableEq, Repr, Inhabited

/-- A place for a block. -/
structure Slot (w : Nat) where
  generation : UInt32 := 0
  live : Bool := true
  block : Block w
  deriving DecidableEq, Repr, Inhabited

/-- Names a slot of certain areas at one of its generations. -/
structure AreaId where
  owner : Nat
  index : Nat
  generation : UInt32
  deriving DecidableEq, Repr

/-- A handle on an area that was handed out. -/
structure Area (w : Nat) where
  id : AreaId
  address : BitVec w
  size : Nat
  deriving DecidableEq, Repr

/-- The working areas of one target. -/
structure Areas (w : Nat) where
  /-- Tells the areas of one target from those of another. -/
  id : Nat
  config : AreaConfig w
  slots : Array (Slot w) := #[]
  order : List Nat := []
  vacant : List Nat := []

/-- The address `n` bytes above `a`, or the top of the address space if there is none. -/
def offset {w : Nat} (a : BitVec w) (n : Nat) : BitVec w :=
  if a.toNat + n ≤ (BitVec.allOnes w).toNat then BitVec.ofNat w (a.toNat + n) else BitVec.allOnes w

/-- The size of the block that serves a request for `n` bytes: whole words, and at least one.
    There is none if the request cannot be rounded up within 32 bits. -/
def roundUp? (n : Nat) : Option Nat :=
  if max n 1 + 3 < 0x100000000 then some ((max n 1 + 3) / 4 * 4) else none

namespace Areas

variable {w : Nat} (s : Areas w)

/-- Has the window been opened? -/
def opened : Bool :=
  !s.order.isEmpty

/-- The block in slot `i`. -/
def block (i : Nat) : Block w :=
  (s.slots.getD i default).block

/-- The blocks by ascending address. -/
def layout : List (Block w) :=
  s.order.map s.block

/-- Size of the largest free block. Before the window is opened, all of it counts, provided
    that it has an address at all. -/
def available : Nat :=
  if s.opened then
    ((s.layout.filter (·.free)).map (·.size)).foldl max 0
  else if s.config.phys.isNone ∧ s.config.virt.isNone then 0
  else s.config.usable

/-- Slot of the first free block of at least `n` bytes. -/
def firstFit? (n : Nat) : Option Nat :=
  s.order.find? fun i => (s.block i).free && n ≤ (s.block i).size

/-- The slot that a handle names, provided the handle still holds. -/
def slotOf? (id : AreaId) : Option Nat :=
  match s.slots[id.index]? with
  | some slot =>
    if slot.live && slot.generation = id.generation && !slot.block.free then some id.index
    else none
  | none => none

/-! ## Changing single slots -/

/-- Changes the block in slot `i`. -/
def modifyBlock (i : Nat) (f : Block w → Block w) : Areas w :=
  { s with slots := s.slots.modify i fun slot => { slot with block := f slot.block } }

/-- Marks a block free; handles on it stop working. -/
def release (i : Nat) : Areas w :=
  { s with slots := s.slots.modify i fun slot =>
      { slot with
        generation := slot.generation + 1
        block := { slot.block with free := true } } }

/-- Puts a block into a slot, a vacant one if there is any. Handles on the slot's former
    blocks do not hold for the new one. -/
def insert (b : Block w) : Nat × Areas w :=
  match s.vacant with
  | i :: rest =>
    (i, { s with
      vacant := rest
      slots := s.slots.modify i fun slot => { slot with live := true, block := b } })
  | [] => (s.slots.size, { s with slots := s.slots.push { block := b } })

/-- Gives up the block in slot `i`. -/
def vacate (i : Nat) : Areas w :=
  { s with
    vacant := i :: s.vacant
    slots := s.slots.modify i fun slot =>
      { generation := slot.generation + 1
        live := false
        block := { slot.block with backup := none } } }

/-! ## Changing the tiling -/

/-- Puts `new` right behind `i`. -/
def insertAfter (i new : Nat) : List Nat → List Nat
  | [] => []
  | j :: rest => if j = i then j :: new :: rest else j :: insertAfter i new rest

/-- Cuts the block in slot `i` down to `n` bytes; what is left over becomes a free block right
    behind it. -/
def split (i n : Nat) : Areas w :=
  let b := s.block i
  if b.size ≤ n then s
  else
    let rest : Block w := { address := offset b.address n, size := b.size - n, free := true }
    let cut := s.modifyBlock i fun b => { b with size := n, backup := none }
    match cut.insert rest with
    | (new, s) => { s with order := insertAfter i new s.order }

/-- Adds the block in slot `b` to its left neighbour in slot `a`. The bytes saved for either of
    them no longer fit. -/
def absorb (a b : Nat) : Areas w :=
  let size := (s.block b).size
  (s.modifyBlock a fun x => { x with size := x.size + size, backup := none }).vacate b

/-- Joins neighbouring free blocks, beginning at slot `a`, which is followed by the slots of the
    list; answers which slots are left. -/
def mergeFrom (s : Areas w) (a : Nat) : List Nat → List Nat × Areas w
  | [] => ([a], s)
  | b :: rest =>
    if (s.block a).free && (s.block b).free then
      (s.absorb a b).mergeFrom a rest
    else
      match s.mergeFrom b rest with
      | (order, s) => (a :: order, s)

/-- Joins neighbouring free blocks. -/
def merge : Areas w :=
  match s.order with
  | [] => s
  | a :: rest =>
    match s.mergeFrom a rest with
    | (order, s) => { s with order }

/-- Gives up all blocks: the window is closed. -/
def discard : Areas w :=
  { s.order.foldl vacate s with order := [] }

/-- Moves or resizes the window; whatever was handed out is forgotten. -/
def setConfig (config : AreaConfig w) : Areas w :=
  { s.discard with config }

end Areas

end DebugLink
