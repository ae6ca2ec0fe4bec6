import DebugLink.Proofs.Area.Backed
import Mathlib.Data.List.Perm.Subperm

/-!
# No slot is lost

`Slotted` says that vacant slots are dead.  `Stocked` says more: together with those of the order
they are ALL THE SLOTS THERE ARE.  It is kept as a sum, which each change of the slots changes by
one on either side; that every slot is in one of the two lists (`Stocked.mem_or_vacant`) follows,
since neither has a slot twice.

* A slot is added only if none is vacant, hence only if all slots are in use: `Grows` says that
  there are as many slots then as there were, or as many as are in use now.  Putting in a block
  grows (`Stocked.insert`), and therefore opening the window (`Stocked.openAt`) and cutting a block
  (`Stocked.split`).
* Giving blocks up keeps the slots (`Stocked.vacate`), and therefore joining (`Stocked.merge`) and
  closing (`Stocked.discard`).
* `SlotTable` spells out what this means for the table, and for what is saved in it; it follows from
  `Stocked` and `Backed` (`Stocked.table`).
-/

namespace DebugLink.Areas

variable {w : Nat} {s t u : Areas w} {order rest p q : List Nat} {i j n a b : Nat}

/-- The slots of `order` and the vacant ones are all slots, and nothing is saved in a vacant one. -/
structure Stocked (s : Areas w) (order : List Nat) : Prop extends Slotted s order where
  count : order.length + s.vacant.length = s.slots.size
  bare : ∀ i ∈ s.vacant, (s.block i).backup = none

/-- There are as many slots as there were, unless more are in use. -/
def Grows (s t : Areas w) : Prop :=
  t.slots.size = max s.slots.size t.order.length

/-- Nothing is saved in a slot that was given up. -/
theorem backup_vacate_self (hi : i < s.slots.size) : ((s.vacate i).block i).backup = none :=
  congrArg (·.block.backup) ((getD_modify hi).trans (if_pos rfl))

namespace Stocked

/-- No more slots are in use than there are. -/
theorem length_le (h : Stocked s order) : order.length ≤ s.slots.size :=
  h.count ▸ Nat.le_add_right _ _

/-- EVERY SLOT IS IN ONE OF THE TWO LISTS. -/
theorem mem_or_vacant (h : Stocked s order) (hi : i < s.slots.size) : i ∈ order ∨ i ∈ s.vacant := by
  have hnodup : (order ++ s.vacant).Nodup :=
    List.nodup_append.mpr ⟨h.nodup, h.vacant_nodup, fun _ hj _ hk heq =>
      h.toSlotted.not_vacant hj (heq ▸ hk)⟩
  have hsub : order ++ s.vacant ⊆ List.range s.slots.size := by
    intro j hj
    rw [List.mem_range]
    exact (List.mem_append.mp hj).elim h.toSlotted.lt_size fun hv => (h.vacant j hv).1
  -- as many as there are slots, and no two of them the same
  have hlength : (List.range s.slots.size).length ≤ (order ++ s.vacant).length := by
    rw [List.length_range, List.length_append, h.count]
  have hperm := (hnodup.subperm hsub).perm_of_length_le hlength
  exact List.mem_append.mp (hperm.mem_iff.mpr (List.mem_range.mpr hi))

/-- No more than the slots there were are in use. -/
theorem grows (h : Stocked t t.order) (hsize : t.slots.size = s.slots.size) : Grows s t := by
  have hle := h.length_le
  rw [Grows]
  omega

/-- It does not matter how the slots in use are ordered. -/
theorem perm (h : Stocked s order) {order' : List Nat} (hp : order.Perm order') :
    Stocked s order' :=
  ⟨h.toSlotted.perm hp, hp.length_eq ▸ h.count, h.bare⟩

/-- The order in the record plays no part. -/
theorem withOrder (h : Stocked s order) (o : List Nat) : Stocked { s with order := o } order :=
  ⟨h.toSlotted.withOrder o, h.count, h.bare⟩

/-- Slots in use have changed. -/
theorem change (h : Stocked s order) (hs : Slotted t order) (hsize : t.slots.size = s.slots.size)
    (hvacant : t.vacant = s.vacant) (hother : ∀ j ∈ s.vacant, t.slot j = s.slot j) :
    Stocked t order where
  toSlotted := hs
  count := by
    rw [hsize, hvacant]
    exact h.count
  bare := by
    rw [hvacant]
    intro j hj
    rw [block_eq, hother j hj]
    exact h.bare j hj

/-- A block in use may change, ... -/
theorem modifyBlock (h : Stocked s order) (hi : i ∈ order) (f : Block w → Block w) :
    Stocked (s.modifyBlock i f) order :=
  h.change (h.toSlotted.modifyBlock hi f) (size_modifyBlock s i f) rfl fun _ hj =>
    slot_modifyBlock_other (h.lt_size hi) (ne_of_mem_of_not_mem hj (h.toSlotted.not_vacant hi))

/-- The block in a slot in use is changed. -/
theorem change_one (h : Stocked s s.order) (hi : i ∈ s.order) (f : Block w → Block w) :
    Stocked (s.modifyBlock i f) (s.modifyBlock i f).order ∧ i ∈ (s.modifyBlock i f).order ∧
      (s.modifyBlock i f).slots.size = s.slots.size :=
  ⟨h.modifyBlock hi f, hi, size_modifyBlock s i f⟩

/-- ... and be given back: the slots stay where they are. -/
theorem release (h : Stocked s order) (hi : i ∈ order) : Stocked (s.release i) order :=
  h.change (h.toSlotted.release hi) (size_release s i) rfl fun _ hj =>
    slot_release_other (h.lt_size hi) (ne_of_mem_of_not_mem hj (h.toSlotted.not_vacant hi))

/-! ## Giving up -/

/-- One slot fewer is in use, and one more is vacant. -/
theorem vacate (h : Stocked s (i :: rest)) : Stocked (s.vacate i) rest where
  toSlotted := h.toSlotted.vacate
  count := by
    have hcount := h.count
    rw [List.length_cons] at hcount
    rw [size_vacate]
    show rest.length + (s.vacant.length + 1) = _
    omega
  bare := by
    have hi := h.lt_size List.mem_cons_self
    intro j hj
    by_cases hji : j = i
    · subst hji
      exact backup_vacate_self hi
    · rw [block_eq, slot_vacate_other hi hji]
      exact h.bare j ((List.mem_cons.mp hj).resolve_left hji)

/-- Joining two blocks gives up the slot of the second. -/
theorem absorb (h : Stocked s (p ++ a :: b :: q)) : Stocked (s.absorb a b) (p ++ a :: q) := by
  have ha : a ∈ p ++ a :: b :: q := mem_middle.mpr (Or.inl rfl)
  refine ((h.modifyBlock ha _).perm ?_).vacate
  exact (List.Perm.swap _ _ _).append_left p |>.trans List.perm_middle

/-- However many are joined, there are as many slots as before. -/
theorem merge (h : Stocked s s.order) :
    Stocked s.merge s.merge.order ∧ s.merge.slots.size = s.slots.size := by
  -- joining is a number of steps that absorb one block each
  refine merge_induction (P := fun t o => Stocked t o ∧ t.slots.size = s.slots.size) ?_ ?_ ⟨h, rfl⟩
  · rintro t p a b q ⟨ht, hsize⟩ _ _
    refine ⟨ht.absorb, ?_⟩
    rw [Areas.absorb, size_vacate, size_modifyBlock, hsize]
  · rintro t o o' ⟨ht, hsize⟩
    exact ⟨ht.withOrder o', hsize⟩

/-- Closing the window gives up all of them, one after the other. -/
theorem discard (h : Stocked s s.order) :
    Stocked s.discard [] ∧ s.discard.slots.size = s.slots.size := by
  -- by the order: each step gives up the slot at its head
  have hall : ∀ (order : List Nat) (t : Areas w), Stocked t order →
      Stocked (order.foldl Areas.vacate t) [] ∧
        (order.foldl Areas.vacate t).slots.size = t.slots.size := by
    intro order
    induction order with
    | nil =>
        intro t ht
        exact ⟨ht, rfl⟩
    | cons i rest ih =>
        intro t ht
        obtain ⟨hs, hsize⟩ := ih (t.vacate i) ht.vacate
        exact ⟨hs, hsize.trans (size_vacate t i)⟩
  obtain ⟨hs, hsize⟩ := hall s.order s h
  exact ⟨hs.withOrder [], hsize⟩

/-- So does another configuration. -/
theorem setConfig (h : Stocked s s.order) (config : AreaConfig w) :
    Stocked (s.setConfig config) [] ∧ (s.setConfig config).slots.size = s.slots.size := by
  obtain ⟨hs, hsize⟩ := h.discard
  exact ⟨⟨⟨hs.nodup, hs.mem_iff, hs.vacant_nodup, hs.vacant⟩, hs.count, hs.bare⟩, hsize⟩

/-! ## Putting in -/

/-- A vacant slot is used again if there is one.  If there is none, ALL SLOTS ARE IN USE, and there
    is one more afterwards. -/
theorem insert (h : Stocked s order) (x : Block w) :
    Stocked (s.insert x).2 ((s.insert x).1 :: order) ∧
      (s.insert x).2.slots.size = max s.slots.size (order.length + 1) := by
  have hcount := h.count
  cases hv : s.vacant with
  | cons i vacant =>
      obtain ⟨-, hfst, -, hother, hs⟩ := insert_vacant h.toSlotted x hv
      have hnot : i ∉ vacant := (List.nodup_cons.mp (hv ▸ h.vacant_nodup)).1
      have hvacant : (s.insert x).2.vacant = vacant := by rw [Areas.insert, hv]
      have hsize : (s.insert x).2.slots.size = s.slots.size := by
        rw [Areas.insert, hv]
        exact Array.size_modify
      rw [hv, List.length_cons] at hcount
      rw [hfst]
      refine ⟨⟨hs, ?_, ?_⟩, by omega⟩
      · rw [hvacant, hsize, List.length_cons]
        omega
      · intro j hj
        rw [hvacant] at hj
        rw [block_eq, hother j (ne_of_mem_of_not_mem hj hnot)]
        exact h.bare j (hv ▸ List.mem_cons_of_mem i hj)
  | nil =>
      obtain ⟨-, hfst, -, -, hs⟩ := insert_push h.toSlotted x hv
      have hvacant : (s.insert x).2.vacant = [] := by rw [Areas.insert, hv]
      have hsize : (s.insert x).2.slots.size = s.slots.size + 1 := by
        rw [Areas.insert, hv]
        exact Array.size_push _
      -- none is vacant, so all of them are in the order
      rw [hv, List.length_nil, Nat.add_zero] at hcount
      rw [hfst]
      refine ⟨⟨hs, ?_, ?_⟩, by omega⟩
      · rw [hvacant, hsize, List.length_cons, List.length_nil]
        omega
      · intro j hj
        rw [hvacant] at hj
        exact absurd hj List.not_mem_nil

/-- A block is put in, and the order is that of before with its slot somewhere in it. -/
theorem insertSomewhere (h : Stocked s s.order) (x : Block w) {o : List Nat}
    (ho : o.Perm ((s.insert x).1 :: s.order)) :
    Stocked { (s.insert x).2 with order := o } o ∧
      Grows s { (s.insert x).2 with order := o } := by
  obtain ⟨hs, hsize⟩ := h.insert x
  refine ⟨(hs.perm ho.symm).withOrder o, ?_⟩
  show (s.insert x).2.slots.size = max s.slots.size o.length
  rw [hsize, ho.length_eq, List.length_cons]

/-- The block that is the whole window takes one slot. -/
theorem openAt (h : Stocked s s.order) (base : BitVec w) :
    Stocked (s.openAt base) (s.openAt base).order ∧ Grows s (s.openAt base) := by
  refine h.insertSomewhere _ ?_
  rw [insert_order]
  exact List.perm_append_singleton _ _

end Stocked

/-- The new one is somewhere in the order. -/
theorem insertAfter_perm (hi : i ∈ order) (new : Nat) :
    (insertAfter i new order).Perm (new :: order) := by
  induction order with
  | nil => exact absurd hi List.not_mem_nil
  | cons k rest ih =>
      rw [insertAfter]
      split
      · exact List.Perm.swap _ _ _
      · next hk =>
        have hrest := (List.mem_cons.mp hi).resolve_left (Ne.symm hk)
        exact ((ih hrest).cons k).trans (List.Perm.swap _ _ _)

/-- A block is cut. -/
theorem Stocked.split (h : Stocked s s.order) (hi : i ∈ s.order) (n : Nat) :
    Stocked (s.split i n) (s.split i n).order ∧ Grows s (s.split i n) := by
  simp only [Areas.split]
  split
  · -- nothing is left over: the block stays whole
    exact ⟨h, h.grows rfl⟩
  · obtain ⟨cut, hcut⟩ : ∃ cut, cut =
        s.modifyBlock i fun b => { b with size := n, backup := none } := ⟨_, rfl⟩
    have horder : cut.order = s.order := by
      rw [hcut]
      rfl
    have hs : Stocked cut cut.order := by
      rw [horder, hcut]
      exact h.modifyBlock hi _
    have hsize : cut.slots.size = s.slots.size := by
      rw [hcut, size_modifyBlock]
    obtain ⟨hstocked, hgrows⟩ := hs.insertSomewhere
      { address := offset (s.block i).address n, size := (s.block i).size - n, free := true }
      (insertAfter_perm (horder ▸ hi) _)
    rw [Grows, hsize] at hgrows
    rw [← hcut, insert_order]
    exact ⟨hstocked, hgrows⟩

/-! ## The table -/

/-- The slot table. -/
structure SlotTable (s : Areas w) : Prop where
  order_nodup : s.order.Nodup
  vacant_nodup : s.vacant.Nodup
  disjoint : ∀ i ∈ s.order, i ∉ s.vacant
  covers : ∀ i, i ∈ s.order ∨ i ∈ s.vacant ↔ i < s.slots.size
  live : ∀ i < s.slots.size, (s.slot i).live = true ↔ i ∈ s.order
  /-- No default takes the place of a slot that is looked up. -/
  indexed : ∀ i, i ∈ s.order ∨ i ∈ s.vacant → s.slots[i]? = some (s.slot i)
  /-- What is saved in a slot is just as long as its block, be the slot in use or not. -/
  fits : ∀ slot ∈ s.slots, ∀ bytes, slot.block.backup = some bytes →
    bytes.length = slot.block.size
  /-- Something is saved for a block that is handed out just if contents are to be put back. -/
  saved : ∀ b ∈ s.layout, b.free = false → (b.backup.isSome = true ↔ s.config.backup = true)

/-- What this means for the table. -/
theorem Stocked.table (h : Stocked s s.order) (hb : Backed s) : SlotTable s where
  order_nodup := h.nodup
  vacant_nodup := h.vacant_nodup
  disjoint := fun _ hi => h.toSlotted.not_vacant hi
  covers := fun i =>
    ⟨fun hi => hi.elim h.toSlotted.lt_size fun hv => (h.vacant i hv).1, h.mem_or_vacant⟩
  live := fun i hi =>
    ⟨fun hlive => (h.mem_iff i).mpr ⟨hi, hlive⟩, fun hm => ((h.mem_iff i).mp hm).2⟩
  indexed := fun i hi =>
    getElem?_slot (hi.elim h.toSlotted.lt_size fun hv => (h.vacant i hv).1)
  fits := by
    intro slot hslot bytes hbytes
    obtain ⟨i, hi, rfl⟩ := Array.mem_iff_getElem.mp hslot
    have hget : s.slot i = s.slots[i] :=
      Option.some.inj ((getElem?_slot hi).symm.trans (Array.getElem?_eq_getElem hi))
    rw [← hget, ← block_eq] at hbytes ⊢
    -- in use it was saved in full, and a vacant slot has nothing saved
    rcases h.mem_or_vacant hi with hm | hv
    · exact (hb _ (List.mem_map_of_mem hm)).fits bytes hbytes
    · rw [h.bare i hv] at hbytes
      exact absurd hbytes nofun
  saved := fun b hm hf => by rw [(hb b hm).saved hf]

/-- New areas have no slots at all. -/
theorem stocked_new (id : Nat) (config : AreaConfig w) :
    Stocked ({ id, config } : Areas w) [] :=
  ⟨(closed_new id config).slotted, rfl, nofun⟩

end DebugLink.Areas
