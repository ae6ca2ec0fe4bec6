import DebugLink.Proofs.Area.Slots
import Mathlib.Algebra.Ring.Nat
import Mathlib.Data.List.Chain

/-!
# The window stays tiled

`Tiled` is the invariant of an open window: its blocks follow each other without a gap from the
base to the end, in whole words, and the blocks that are not free are, one by one, those that
the handles in `live` were issued for.

Each change of the tiling keeps it: cutting a block (`Tiled.split`), handing one out
(`Tiled.handOut`), taking it back (`Tiled.release`), joining two (`Tiled.absorb`).  Joining ALL
neighbours that are free is an induction over the order (`merge_induction`), which other
invariants use as well; what is left has no two free neighbours (`merge_coalesced`).
-/

namespace DebugLink.Areas

variable {w : Nat} {s s' : Areas w} {order p q : List Nat} {i j n a z : Nat}
  {live : List (Area w)} {base : BitVec w}

/-- The top of the address space is its last address. -/
theorem le_top_iff : n ≤ (BitVec.allOnes w).toNat ↔ n < 2 ^ w := by
  have hpos := Nat.two_pow_pos w
  rw [BitVec.toNat_allOnes]
  omega

/-! ## Blocks in a row -/

/-- The blocks of some slots fill the addresses from `a` to `z`, one after the other. -/
def Tiles (s : Areas w) (a : Nat) : List Nat → Nat → Prop
  | [], z => a = z
  | i :: rest, z => (s.block i).address.toNat = a ∧ s.Tiles (a + (s.block i).size) rest z

/-- Blocks follow each other upwards. -/
theorem Tiles.le (h : s.Tiles a order z) : a ≤ z := by
  induction order generalizing a with
  | nil => exact Nat.le_of_eq h
  | cons i rest ih => exact Nat.le_trans (Nat.le_add_right _ _) (ih h.2)

/-- Rows of blocks can be put together where one ends and the other begins. -/
theorem tiles_append :
    s.Tiles a (p ++ q) z ↔ ∃ m, s.Tiles a p m ∧ s.Tiles m q z := by
  induction p generalizing a with
  | nil =>
      constructor
      · intro h
        exact ⟨a, rfl, h⟩
      · rintro ⟨m, rfl, h⟩
        exact h
  | cons i rest ih =>
      constructor
      · rintro ⟨hi, h⟩
        obtain ⟨m, hp, hq⟩ := ih.mp h
        exact ⟨m, ⟨hi, hp⟩, hq⟩
      · rintro ⟨m, ⟨hi, hp⟩, hq⟩
        exact ⟨hi, ih.mpr ⟨m, hp, hq⟩⟩

/-- Where a block lies is all that counts. -/
theorem Tiles.congr (h : s.Tiles a order z) (hb : ∀ j ∈ order,
    (s'.block j).address = (s.block j).address ∧ (s'.block j).size = (s.block j).size) :
    s'.Tiles a order z := by
  induction order generalizing a with
  | nil => exact h
  | cons i rest ih =>
      obtain ⟨hi, hrest⟩ := h
      obtain ⟨haddr, hsize⟩ := hb i List.mem_cons_self
      refine ⟨by rw [haddr, hi], ?_⟩
      rw [hsize]
      exact ih hrest fun j hj => hb j (List.mem_cons_of_mem i hj)

/-- Every block lies inside. -/
theorem Tiles.inside (h : s.Tiles a order z) (hi : i ∈ order) :
    a ≤ (s.block i).address.toNat ∧ (s.block i).address.toNat + (s.block i).size ≤ z := by
  -- what lies in front of it ends where it begins, and what follows begins where it ends
  obtain ⟨p, q, rfl⟩ := List.append_of_mem hi
  obtain ⟨m, hp, haddr, hq⟩ := tiles_append.mp h
  have := hp.le
  have := hq.le
  omega

/-- No two blocks overlap. -/
theorem Tiles.pairwise (h : s.Tiles a order z) : order.Pairwise fun i j =>
    (s.block i).address.toNat + (s.block i).size ≤ (s.block j).address.toNat := by
  induction order generalizing a with
  | nil => exact .nil
  | cons i rest ih =>
      obtain ⟨hi, hrest⟩ := h
      refine .cons ?_ (ih hrest)
      intro j hj
      rw [hi]
      exact (hrest.inside hj).1

/-- Two blocks do not overlap. -/
theorem Tiles.disjoint (h : s.Tiles a order z) (hi : i ∈ order) (hj : j ∈ order) (hij : i ≠ j) :
    (s.block i).address.toNat + (s.block i).size ≤ (s.block j).address.toNat ∨
      (s.block j).address.toNat + (s.block j).size ≤ (s.block i).address.toNat := by
  obtain ⟨p, q, rfl⟩ := List.append_of_mem hi
  obtain ⟨m, hp, rfl, hq⟩ := tiles_append.mp h
  rcases List.mem_append.mp hj with hj | hj
  · exact Or.inr (hp.inside hj).2
  · rcases List.mem_cons.mp hj with rfl | hj
    · exact absurd rfl hij
    · exact Or.inl (hq.inside hj).1

/-- The sizes add up. -/
theorem Tiles.sum (h : s.Tiles a order z) :
    a + (order.map fun i => (s.block i).size).sum = z := by
  induction order generalizing a with
  | nil => exact h
  | cons i rest ih =>
      rw [List.map_cons, List.sum_cons, ← Nat.add_assoc]
      exact ih h.2

/-- Each block begins where the one before it ends. -/
theorem Tiles.chain (h : s.Tiles a order z) : order.IsChain fun i j =>
    (s.block j).address.toNat = (s.block i).address.toNat + (s.block i).size := by
  induction order generalizing a with
  | nil => exact .nil
  | cons i rest ih =>
      obtain ⟨hi, hrest⟩ := h
      cases rest with
      | nil => exact .singleton i
      | cons j rest =>
          refine .cons_cons ?_ (ih hrest)
          rw [hrest.1, hi]

/-! ## Handles -/

/-- The handles on those blocks that are not free. -/
def handles (s : Areas w) (order : List Nat) : List (Area w) :=
  (order.filter fun i => !(s.block i).free).map s.handle

/-- The handles of two rows are those of the one and of the other. -/
theorem handles_append : s.handles (p ++ q) = s.handles p ++ s.handles q := by
  rw [handles, List.filter_append, List.map_append]
  rfl

/-- There is no handle on a free block, ... -/
theorem handles_cons_free (h : (s.block i).free = true) : s.handles (i :: q) = s.handles q := by
  rw [handles, List.filter_cons_of_neg (by simp [h])]
  rfl

/-- ... and one on every other. -/
theorem handles_cons_live (h : (s.block i).free = false) :
    s.handles (i :: q) = s.handle i :: s.handles q := by
  rw [handles, List.filter_cons_of_pos (by simp [h])]
  rfl

/-- They depend on what the handles are, and on which blocks are free. -/
theorem handles_congr (h : ∀ j ∈ order,
    s'.handle j = s.handle j ∧ (s'.block j).free = (s.block j).free) :
    s'.handles order = s.handles order := by
  induction order with
  | nil => rfl
  | cons i rest ih =>
      obtain ⟨hi, hfree⟩ := h i List.mem_cons_self
      have hrest := ih fun j hj => h j (List.mem_cons_of_mem i hj)
      cases hf : (s.block i).free with
      | true => rw [handles_cons_free hf, handles_cons_free (hfree.trans hf), hrest]
      | false => rw [handles_cons_live hf, handles_cons_live (hfree.trans hf), hrest, hi]

/-- Slots that were left alone. -/
theorem handles_same (hid : s'.id = s.id) (h : ∀ j ∈ order, s'.slot j = s.slot j) :
    s'.handles order = s.handles order :=
  handles_congr fun j hj => ⟨handle_congr hid (h j hj), by rw [block_eq, h j hj, block_eq]⟩

/-- A handle that holds is that of a block which is not free. -/
theorem mem_handles {h : Area w} :
    h ∈ s.handles order ↔ ∃ i ∈ order, (s.block i).free = false ∧ s.handle i = h := by
  simp [handles, and_assoc]

/-- The handles that hold after one was given back. -/
def without (live : List (Area w)) (id : AreaId) : List (Area w) :=
  live.filter fun a => a.id ≠ id

/-! ## The invariant -/

/-- The blocks of some slots tile the window, in whole words. -/
structure Tiling (s : Areas w) (order : List Nat) (base : BitVec w) : Prop where
  words : ∀ i ∈ order, (s.block i).size % 4 = 0
  pos : ∀ i ∈ order, 0 < (s.block i).size ∨ s.config.usable = 0
  tiles : s.Tiles base.toNat order (base.toNat + s.config.usable)
  fits : base.toNat + s.config.usable ≤ 2 ^ w

/-- Where the blocks lie is all that counts. -/
theorem Tiling.congr (h : Tiling s order base) (hconfig : s'.config = s.config)
    (hb : ∀ j ∈ order,
      (s'.block j).address = (s.block j).address ∧ (s'.block j).size = (s.block j).size) :
    Tiling s' order base where
  words := by
    intro j hj
    rw [(hb j hj).2]
    exact h.words j hj
  pos := by
    intro j hj
    rw [(hb j hj).2, hconfig]
    exact h.pos j hj
  tiles := by
    rw [hconfig]
    exact h.tiles.congr hb
  fits := by
    rw [hconfig]
    exact h.fits

/-- One slot has changed, but its block lies where it lay. -/
theorem Tiling.change (h : Tiling s order base) (hconfig : s'.config = s.config)
    (hself : (s'.block i).address = (s.block i).address ∧ (s'.block i).size = (s.block i).size)
    (hother : ∀ j, j ≠ i → s'.slot j = s.slot j) : Tiling s' order base := by
  refine h.congr hconfig ?_
  intro j _
  by_cases hj : j = i
  · subst hj
    exact hself
  · rw [block_eq, hother j hj, block_eq]
    exact ⟨rfl, rfl⟩

/-- An open window, its base, and the handles that hold. -/
structure Tiled (s : Areas w) (order : List Nat) (live : List (Area w)) (base : BitVec w) : Prop
    extends Slotted s order, Tiling s order base where
  handles : live.Perm (s.handles order)

/-- No two neighbours are both free. -/
def Coalesced (s : Areas w) (order : List Nat) : Prop :=
  order.IsChain fun i j => ¬((s.block i).free = true ∧ (s.block j).free = true)

/-- Fewer free blocks have fewer free neighbours. -/
theorem Coalesced.mono (h : s.Coalesced order)
    (hb : ∀ j ∈ order, (s'.block j).free = true → (s.block j).free = true) :
    s'.Coalesced order := by
  induction h with
  | nil => exact .nil
  | singleton i => exact .singleton i
  | cons_cons hij _ ih =>
      refine .cons_cons ?_ (ih fun k hk => hb k (List.mem_cons_of_mem _ hk))
      rintro ⟨hi, hj⟩
      exact hij ⟨hb _ List.mem_cons_self hi,
        hb _ (List.mem_cons_of_mem _ List.mem_cons_self) hj⟩

/-- Only which blocks are free counts. -/
theorem Coalesced.congr (h : s.Coalesced order)
    (hb : ∀ j ∈ order, (s'.block j).free = (s.block j).free) : s'.Coalesced order :=
  h.mono fun j hj hfree => hb j hj ▸ hfree

namespace Tiled

/-- The order in the record plays no part. -/
theorem withOrder (h : Tiled s order live base) (o : List Nat) :
    Tiled { s with order := o } order live base where
  toSlotted := h.toSlotted.withOrder o
  toTiling := h.toTiling.congr rfl fun _ _ => ⟨rfl, rfl⟩
  handles := h.handles

/-- Saving something, or forgetting it, changes nothing here. -/
theorem modifyBackup (h : Tiled s order live base) (hi : i ∈ order)
    (f : Block w → Option (List UInt8)) :
    Tiled (s.modifyBlock i fun b => { b with backup := f b }) order live base := by
  have hlt := h.lt_size hi
  have hb : ∀ j, (s.modifyBlock i fun b => { b with backup := f b }).handle j = s.handle j ∧
      ((s.modifyBlock i fun b => { b with backup := f b }).block j).free = (s.block j).free := by
    intro j
    by_cases hj : j = i
    · subst hj
      simp only [handle, block_eq, slot_modifyBlock_self hlt]
      exact ⟨rfl, trivial⟩
    · simp only [handle, block_eq, slot_modifyBlock_other hlt hj]
      exact ⟨rfl, trivial⟩
  refine ⟨h.toSlotted.modifyBlock hi _, h.toTiling.congr rfl ?_, ?_⟩
  · intro j _
    exact ⟨congrArg Area.address (hb j).1, congrArg Area.size (hb j).1⟩
  · rw [handles_congr fun j _ => hb j]
    exact h.handles

/-! ## Handing out, and taking back -/

/-- A free block is handed out. -/
theorem handOut (h : Tiled s order live base) (hi : i ∈ order) (hf : (s.block i).free = true) :
    Tiled (s.handOut i) order (live ++ [(s.handOut i).handle i]) base := by
  have hlt := h.lt_size hi
  have hself := slot_handOut_self hlt
  have hother : ∀ j, j ≠ i → (s.handOut i).slot j = s.slot j :=
    fun j hj => slot_handOut_other hlt hj
  have hsame : ∀ l : List Nat, i ∉ l → (s.handOut i).handles l = s.handles l :=
    fun l hl => handles_same rfl fun j hj => hother j (ne_of_mem_of_not_mem hj hl)
  refine ⟨h.toSlotted.modifyBlock hi _, h.toTiling.change rfl ?_ hother, ?_⟩
  · rw [block_eq, hself]
    exact ⟨rfl, rfl⟩
  · -- only the handle on this slot is new
    obtain ⟨p, q, rfl⟩ := List.append_of_mem hi
    obtain ⟨hp, hq⟩ := h.apart
    have hlive := h.handles
    rw [handles_append, handles_cons_free hf] at hlive
    rw [handles_append, handles_cons_live (by rw [block_eq, hself]), hsame p hp, hsame q hq]
    exact (List.perm_append_comm.trans (hlive.cons _)).trans List.perm_middle.symm

/-- A block is taken back; the handles on it do not hold any longer. -/
theorem release (h : Tiled s order live base) (hi : i ∈ order) (hf : (s.block i).free = false) :
    Tiled (s.release i) order (without live (s.handle i).id) base := by
  have hlt := h.lt_size hi
  have hself := slot_release_self hlt
  have hother : ∀ j, j ≠ i → (s.release i).slot j = s.slot j :=
    fun j hj => slot_release_other hlt hj
  have hsame : ∀ l : List Nat, i ∉ l → (s.release i).handles l = s.handles l :=
    fun l hl => handles_same rfl fun j hj => hother j (ne_of_mem_of_not_mem hj hl)
  refine ⟨h.toSlotted.release hi, h.toTiling.change rfl ?_ hother, ?_⟩
  · rw [block_eq, hself]
    exact ⟨rfl, rfl⟩
  · obtain ⟨p, q, rfl⟩ := List.append_of_mem hi
    obtain ⟨hp, hq⟩ := h.apart
    -- handles on other slots have other ids
    have hkeep : ∀ l : List Nat, i ∉ l →
        without (s.handles l) (s.handle i).id = s.handles l := by
      intro l hl
      refine List.filter_eq_self.mpr ?_
      intro a ha
      obtain ⟨j, hj, _, rfl⟩ := mem_handles.mp ha
      refine decide_eq_true ?_
      intro hid
      have hji : j = i := congrArg AreaId.index hid
      exact hl (hji ▸ hj)
    have hlive := h.handles.filter fun a => a.id ≠ (s.handle i).id
    rw [handles_append, handles_cons_live hf, List.filter_append,
      List.filter_cons_of_neg (by simp)] at hlive
    rw [handles_append, handles_cons_free (by rw [block_eq, hself]),
      hsame p hp, hsame q hq, ← hkeep p hp, ← hkeep q hq]
    exact hlive

end Tiled

/-! ## Cutting -/

/-- The new slot comes right behind the one that was cut. -/
theorem insertAfter_append (hp : i ∉ p) : insertAfter i n (p ++ i :: q) = p ++ i :: n :: q := by
  induction p with
  | nil => exact if_pos rfl
  | cons j rest ih =>
      have hj : j ≠ i := fun hji => hp (hji ▸ List.mem_cons_self)
      rw [List.cons_append, insertAfter, if_neg hj, ih fun hr => hp (List.mem_cons_of_mem j hr)]
      rfl

/-- An offset inside the address space does not saturate. -/
theorem offset_toNat {b : BitVec w} (h : b.toNat + n < 2 ^ w) :
    (offset b n).toNat = b.toNat + n := by
  rw [offset, if_pos (le_top_iff.mpr h), BitVec.toNat_ofNat, Nat.mod_eq_of_lt h]

/-- What cutting a block does to the slots. -/
theorem split_spec (h : Slotted s (p ++ i :: q)) (ho : s.order = p ++ i :: q)
    (hn : n < (s.block i).size) :
    ∃ new, (s.split i n).order = p ++ i :: new :: q ∧ new ∉ p ++ i :: q ∧
      Slotted (s.split i n) (p ++ i :: new :: q) ∧
      (s.split i n).slot i =
        { s.slot i with block := { s.block i with size := n, backup := none } } ∧
      (s.split i n).block new =
        { address := offset (s.block i).address n, size := (s.block i).size - n, free := true } ∧
      (∀ j ∈ p ++ q, (s.split i n).slot j = s.slot j) ∧
      (s.split i n).id = s.id ∧ (s.split i n).config = s.config := by
  have hi : i ∈ p ++ i :: q := List.mem_append_right p List.mem_cons_self
  obtain ⟨hp, hq⟩ := h.apart
  obtain ⟨cut, hcut⟩ : ∃ cut, cut =
      s.modifyBlock i fun b => { b with size := n, backup := none } := ⟨_, rfl⟩
  obtain ⟨rest, hrest⟩ : ∃ rest : Block w, rest =
      { address := offset (s.block i).address n, size := (s.block i).size - n, free := true } :=
    ⟨_, rfl⟩
  have hsplit : s.split i n =
      { (cut.insert rest).2 with order := insertAfter i (cut.insert rest).1 s.order } := by
    have horder : (cut.insert rest).2.order = s.order := by
      rw [insert_order, hcut]
      rfl
    rw [← horder, hcut, hrest]
    exact if_neg (Nat.not_le_of_lt hn)
  -- first the block is shortened, then the rest of it is put in behind it
  have hs : Slotted cut (p ++ i :: q) := hcut ▸ h.modifyBlock hi _
  obtain ⟨hnew, hblock, hother, hslotted⟩ := insert_spec hs rest
  have hslot : ∀ j ∈ p ++ i :: q, (s.split i n).slot j = cut.slot j := by
    intro j hj
    rw [hsplit]
    exact hother j (ne_of_mem_of_not_mem hj hnew)
  refine ⟨(cut.insert rest).1, ?_, hnew, ?_, ?_, ?_, ?_, ?_, ?_⟩
  · rw [hsplit, ho]
    exact insertAfter_append hp
  · rw [hsplit]
    refine (hslotted.withOrder _).perm ?_
    refine List.perm_middle.symm.trans ?_
    exact (List.Perm.swap _ _ _).append_left p
  · rw [hslot i hi, hcut, slot_modifyBlock_self (h.lt_size hi)]
  · rw [hsplit, ← hrest]
    exact hblock
  · intro j hj
    rw [hslot j (mem_middle.mpr (Or.inr hj)), hcut,
      slot_modifyBlock_other (h.lt_size hi) (h.ne_of_mem hj)]
  · rw [hsplit, hcut]
    exact insert_id _ _
  · rw [hsplit, hcut]
    exact insert_config _ _

/-- Cutting a free block keeps the window tiled. -/
theorem Tiled.split (h : Tiled s (p ++ i :: q) live base) (ho : s.order = p ++ i :: q)
    (hf : (s.block i).free = true) (hpos : 0 < n) (hw : n % 4 = 0) (hn : n < (s.block i).size) :
    ∃ new, (s.split i n).order = p ++ i :: new :: q ∧
      Tiled (s.split i n) (p ++ i :: new :: q) live base := by
  have hi : i ∈ p ++ i :: q := List.mem_append_right p List.mem_cons_self
  obtain ⟨new, horder, _, hslotted, hself, hnew, hslots, hid, hconfig⟩ :=
    split_spec h.toSlotted ho hn
  have hself : (s.split i n).block i = { s.block i with size := n, backup := none } := by
    rw [block_eq, hself]
  have hother : ∀ j ∈ p ++ q, (s.split i n).block j = s.block j := by
    intro j hj
    rw [block_eq, hslots j hj, block_eq]
  have hwords := h.words i hi
  -- the new block begins inside the window, so its address does not saturate
  have hin := h.tiles.inside hi
  have haddr : (offset (s.block i).address n).toNat = (s.block i).address.toNat + n :=
    offset_toNat (Nat.lt_of_lt_of_le (by omega) h.fits)
  have hcases : ∀ j ∈ p ++ i :: new :: q, j = i ∨ j = new ∨ j ∈ p ++ q := by
    intro j hj
    exact (mem_middle.mp hj).imp_right mem_middle.mp
  have hold : ∀ j ∈ p ++ q, j ∈ p ++ i :: q := fun j hj => mem_middle.mpr (Or.inr hj)
  refine ⟨new, horder, hslotted, ⟨?_, ?_, ?_, ?_⟩, ?_⟩
  · intro j hj
    rcases hcases j hj with rfl | rfl | hj
    · rw [hself]
      exact hw
    · rw [hnew]
      show ((s.block i).size - n) % 4 = 0
      omega
    · rw [hother j hj]
      exact h.words j (hold j hj)
  · intro j hj
    rcases hcases j hj with rfl | rfl | hj
    · rw [hself]
      exact Or.inl hpos
    · rw [hnew]
      exact Or.inl (Nat.sub_pos_of_lt hn)
    · rw [hother j hj, hconfig]
      exact h.pos j (hold j hj)
  · rw [hconfig]
    obtain ⟨m, hp, hm, hq⟩ := tiles_append.mp h.tiles
    refine tiles_append.mpr ⟨m, hp.congr ?_, ?_, ?_, ?_⟩
    · intro j hj
      rw [hother j (List.mem_append_left q hj)]
      exact ⟨rfl, rfl⟩
    · rw [hself]
      exact hm
    · rw [hnew, hself, ← hm]
      exact haddr
    · have hsum : m + n + ((s.block i).size - n) = m + (s.block i).size := by omega
      rw [hself, hnew]
      show (s.split i n).Tiles (m + n + ((s.block i).size - n)) q _
      rw [hsum]
      refine hq.congr ?_
      intro j hj
      rw [hother j (List.mem_append_right p hj)]
      exact ⟨rfl, rfl⟩
  · rw [hconfig]
    exact h.fits
  · have hlive := h.handles
    rw [handles_append, handles_cons_free hf, ← handles_append] at hlive
    rw [handles_append, handles_cons_free (by rw [hself]; exact hf),
      handles_cons_free (by rw [hnew]), ← handles_append]
    exact hlive.trans (List.Perm.of_eq (handles_same hid hslots).symm)

/-! ## Joining -/

/-- What joining two neighbours does to the slots. -/
theorem absorb_spec {b : Nat} (h : Slotted s (p ++ a :: b :: q)) :
    Slotted (s.absorb a b) (p ++ a :: q) ∧
      (s.absorb a b).block a =
        { s.block a with size := (s.block a).size + (s.block b).size, backup := none } ∧
      ∀ j, j ≠ a → j ≠ b → (s.absorb a b).slot j = s.slot j := by
  have ha : a ∈ p ++ a :: b :: q := List.mem_append_right p List.mem_cons_self
  have hb : b ∈ p ++ a :: b :: q :=
    List.mem_append_right p (List.mem_cons_of_mem a List.mem_cons_self)
  have hab : a ≠ b := fun hab => h.apart.2 (hab ▸ List.mem_cons_self)
  obtain ⟨grown, hgrown⟩ : ∃ grown, grown = s.modifyBlock a fun x =>
      { x with size := x.size + (s.block b).size, backup := none } := ⟨_, rfl⟩
  have habsorb : s.absorb a b = grown.vacate b := by
    rw [hgrown]
    rfl
  have hs : Slotted grown (p ++ a :: b :: q) := hgrown ▸ h.modifyBlock ha _
  have hlt := hs.lt_size hb
  rw [habsorb]
  refine ⟨?_, ?_, ?_⟩
  · refine (hs.perm ?_).vacate
    exact (List.Perm.swap _ _ _).append_left p |>.trans List.perm_middle
  · rw [block_eq, slot_vacate_other hlt hab, hgrown, slot_modifyBlock_self (h.lt_size ha)]
  · intro j hja hjb
    rw [slot_vacate_other hlt hjb, hgrown, slot_modifyBlock_other (h.lt_size ha) hja]

/-- Joining two free neighbours keeps the window tiled. -/
theorem Tiled.absorb {b : Nat} (h : Tiled s (p ++ a :: b :: q) live base)
    (ha : (s.block a).free = true) (hb : (s.block b).free = true) :
    Tiled (s.absorb a b) (p ++ a :: q) live base := by
  obtain ⟨hslotted, hself, hslots⟩ := absorb_spec h.toSlotted
  have hother : ∀ j ∈ p ++ q, (s.absorb a b).slot j = s.slot j := by
    intro j hj
    refine hslots j (h.ne_of_mem ?_) (h.toSlotted.second.ne_of_mem ?_)
    · exact mem_middle.mpr (Or.inr hj)
    · rw [List.append_assoc]
      exact mem_middle.mpr (Or.inr hj)
  have hblock : ∀ j ∈ p ++ q, (s.absorb a b).block j = s.block j := by
    intro j hj
    rw [block_eq, hother j hj, block_eq]
  have hmem : ∀ j ∈ p ++ a :: q, j = a ∨ j ∈ p ++ q ∧ j ∈ p ++ a :: b :: q := by
    intro j hj
    refine (mem_middle.mp hj).imp_right ?_
    intro hj
    exact ⟨hj, mem_middle.mpr (Or.inr (mem_middle.mpr (Or.inr hj)))⟩
  have hma : a ∈ p ++ a :: b :: q := List.mem_append_right p List.mem_cons_self
  have hmb : b ∈ p ++ a :: b :: q :=
    List.mem_append_right p (List.mem_cons_of_mem a List.mem_cons_self)
  refine ⟨hslotted, ⟨?_, ?_, ?_, h.fits⟩, ?_⟩
  · intro j hj
    rcases hmem j hj with rfl | ⟨hj, hj'⟩
    · have := h.words j hma
      have := h.words b hmb
      rw [hself]
      show ((s.block j).size + (s.block b).size) % 4 = 0
      omega
    · rw [hblock j hj]
      exact h.words j hj'
  · intro j hj
    rcases hmem j hj with rfl | ⟨hj, hj'⟩
    · rw [hself]
      rcases h.pos j hma with hpos | hempty
      · exact Or.inl (Nat.add_pos_left hpos _)
      · exact Or.inr hempty
    · rw [hblock j hj]
      exact h.pos j hj'
  · obtain ⟨m, hp, hm, -, hq⟩ := tiles_append.mp h.tiles
    refine tiles_append.mpr ⟨m, hp.congr ?_, ?_, ?_⟩
    · intro j hj
      rw [hblock j (List.mem_append_left q hj)]
      exact ⟨rfl, rfl⟩
    · rw [hself]
      exact hm
    · rw [hself]
      show (s.absorb a b).Tiles (m + ((s.block a).size + (s.block b).size)) q _
      rw [← Nat.add_assoc]
      refine hq.congr ?_
      intro j hj
      rw [hblock j (List.mem_append_right p hj)]
      exact ⟨rfl, rfl⟩
  · have hlive := h.handles
    rw [handles_append, handles_cons_free ha, handles_cons_free hb, ← handles_append] at hlive
    rw [handles_append, handles_cons_free (by rw [hself]; exact ha), ← handles_append]
    have hid : (s.absorb a b).id = s.id := rfl
    exact hlive.trans (List.Perm.of_eq (handles_same hid hother).symm)

/-- Joining all free neighbours keeps whatever joining two of them keeps. -/
theorem mergeFrom_induction {P : Areas w → List Nat → Prop}
    (step : ∀ s p a b q, P s (p ++ a :: b :: q) → (s.block a).free = true →
      (s.block b).free = true → P (s.absorb a b) (p ++ a :: q)) :
    ∀ (rest p : List Nat) (s : Areas w) (a : Nat), P s (p ++ a :: rest) →
      P (s.mergeFrom a rest).2 (p ++ (s.mergeFrom a rest).1) := by
  intro rest
  induction rest with
  | nil =>
      intro p s a h
      exact h
  | cons b rest ih =>
      intro p s a h
      rw [mergeFrom]
      split
      · next hfree =>
        obtain ⟨ha, hb⟩ := Bool.and_eq_true_iff.mp hfree
        exact ih p (s.absorb a b) a (step s p a b rest h ha hb)
      · have h' : P s ((p ++ [a]) ++ b :: rest) := by
          rw [List.append_assoc]
          exact h
        have hrec := ih (p ++ [a]) s b h'
        rw [List.append_assoc] at hrec
        exact hrec

theorem merge_induction {P : Areas w → List Nat → Prop}
    (step : ∀ s p a b q, P s (p ++ a :: b :: q) → (s.block a).free = true →
      (s.block b).free = true → P (s.absorb a b) (p ++ a :: q))
    (withOrder : ∀ s o o', P s o → P { s with order := o' } o) (h : P s s.order) :
    P s.merge s.merge.order := by
  rw [merge]
  cases ho : s.order with
  | nil =>
      rw [ho] at h
      show P s s.order
      rw [ho]
      exact h
  | cons a rest =>
      rw [ho] at h
      exact withOrder _ _ _ (mergeFrom_induction step rest [] s a h)

/-- Where there are no blocks, there is nothing to join. -/
theorem merge_closed (ho : s.order = []) : s.merge = s := by
  rw [merge, ho]

/-- Joining keeps the window tiled. -/
theorem merge_tiled (h : Tiled s s.order live base) :
    Tiled s.merge s.merge.order live base :=
  merge_induction (P := fun s o => Tiled s o live base)
    (fun _ _ _ _ _ h ha hb => h.absorb ha hb) (fun _ _ o' h => h.withOrder o') h

/-- The first block stays the first one. -/
theorem mergeFrom_ne_nil (s : Areas w) (a : Nat) (rest : List Nat) :
    ∃ t, (s.mergeFrom a rest).1 = a :: t := by
  induction rest generalizing s with
  | nil => exact ⟨[], rfl⟩
  | cons b rest ih =>
      rw [mergeFrom]
      split
      · exact ih _
      · exact ⟨_, rfl⟩

/-- Joining does not close the window. -/
theorem merge_opened (h : s.order ≠ []) : s.merge.order ≠ [] := by
  rw [merge]
  cases ho : s.order with
  | nil => exact absurd ho h
  | cons a rest =>
      obtain ⟨t, ht⟩ := mergeFrom_ne_nil s a rest
      show (s.mergeFrom a rest).1 ≠ []
      rw [ht]
      exact List.cons_ne_nil a t

/-- What is left of a run of blocks has no two free neighbours.  The first block is there still,
    free or not as before, and nothing in front of it has changed. -/
theorem mergeFrom_coalesced (rest : List Nat) : ∀ (p : List Nat) (s : Areas w) (a : Nat),
    Slotted s (p ++ a :: rest) →
      Coalesced (s.mergeFrom a rest).2 (s.mergeFrom a rest).1 ∧
      ((s.mergeFrom a rest).2.block a).free = (s.block a).free ∧
      ∀ j ∈ p, (s.mergeFrom a rest).2.slot j = s.slot j := by
  -- on the blocks to come; those in front are carried along, as they must not change
  induction rest with
  | nil =>
      intro p s a _
      exact ⟨.singleton a, rfl, fun _ _ => rfl⟩
  | cons b rest ih =>
      intro p s a h
      have hpa := h.apart.1
      have hpb := h.second.apart.1
      rw [mergeFrom]
      split
      · -- the second one is absorbed: the first has a new neighbour
        next hfree =>
        obtain ⟨hs, hself, hother⟩ := absorb_spec h
        obtain ⟨hc, hfirst, hfront⟩ := ih p (s.absorb a b) a hs
        refine ⟨hc, ?_, ?_⟩
        · rw [hfirst, hself]
        · intro j hj
          rw [hfront j hj]
          exact hother j (ne_of_mem_of_not_mem hj hpa)
            (ne_of_mem_of_not_mem (List.mem_append_left _ hj) hpb)
      · -- the first one stays as it is, and is not free together with the second
        next hfree =>
        obtain ⟨t, ht⟩ := mergeFrom_ne_nil s b rest
        obtain ⟨hc, hfirst, hfront⟩ := ih (p ++ [a]) s b h.second
        have hkeep : (s.mergeFrom b rest).2.slot a = s.slot a :=
          hfront a (List.mem_append_right p List.mem_cons_self)
        show Coalesced (s.mergeFrom b rest).2 (a :: (s.mergeFrom b rest).1) ∧
          ((s.mergeFrom b rest).2.block a).free = _ ∧ _
        refine ⟨?_, ?_, ?_⟩
        · rw [ht] at hc ⊢
          refine .cons_cons ?_ hc
          rw [hfirst, block_eq, hkeep, ← block_eq]
          intro hboth
          exact hfree (Bool.and_eq_true_iff.mpr hboth)
        · rw [block_eq, hkeep, ← block_eq]
        · intro j hj
          exact hfront j (List.mem_append_left _ hj)

/-- NO TWO FREE NEIGHBOURS ARE LEFT. -/
theorem merge_coalesced (h : Slotted s s.order) : s.merge.Coalesced s.merge.order := by
  rw [merge]
  cases ho : s.order with
  | nil =>
      show Coalesced s s.order
      rw [ho]
      exact .nil
  | cons a rest =>
      rw [ho] at h
      exact (mergeFrom_coalesced rest [] s a h).1.congr fun _ _ => rfl

theorem mergeFrom_config (rest : List Nat) : ∀ (s : Areas w) (a : Nat),
    (s.mergeFrom a rest).2.config = s.config := by
  induction rest with
  | nil =>
      intro s a
      rfl
  | cons b rest ih =>
      intro s a
      rw [mergeFrom]
      split
      · exact ih (s.absorb a b) a
      · exact ih s b

theorem merge_config (s : Areas w) : s.merge.config = s.config := by
  rw [merge]
  cases s.order with
  | nil => rfl
  | cons a rest => exact mergeFrom_config rest s a

theorem merge_id (s : Areas w) : s.merge.id = s.id :=
  merge_induction (P := fun t _ => t.id = s.id) (fun _ _ _ _ _ h _ _ => h) (fun _ _ _ h => h) rfl

/-! ## Closing -/

/-- Closing leaves the slots in order. -/
theorem discard_slotted (h : Slotted s s.order) : Slotted s.discard [] := by
  have hall : ∀ (order : List Nat) (s : Areas w), Slotted s order →
      Slotted (order.foldl vacate s) [] := by
    intro order
    induction order with
    | nil =>
        intro s h
        exact h
    | cons i rest ih =>
        intro s h
        exact ih (s.vacate i) h.vacate
  exact (hall s.order s h).withOrder []

theorem discard_config (s : Areas w) : s.discard.config = s.config := by
  have hall : ∀ (order : List Nat) (s : Areas w), (order.foldl vacate s).config = s.config := by
    intro order
    induction order with
    | nil =>
        intro s
        rfl
    | cons i rest ih =>
        intro s
        exact ih (s.vacate i)
  exact hall s.order s

/-! ## Choosing -/

/-- What is chosen is free, and large enough. -/
theorem firstFit_spec (h : s.firstFit? n = some i) :
    i ∈ s.order ∧ (s.block i).free = true ∧ n ≤ (s.block i).size := by
  have hmem := List.mem_of_find?_eq_some h
  have hpred := List.find?_some h
  obtain ⟨hfree, hsize⟩ := Bool.and_eq_true_iff.mp hpred
  exact ⟨hmem, hfree, of_decide_eq_true hsize⟩

end DebugLink.Areas
