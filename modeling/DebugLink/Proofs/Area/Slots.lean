import DebugLink.Area.Basic

/-!
# Slots

Every change of the areas is a change of single slots; this file says what each of them leaves
in each slot.  Two slots are not each other's business: `slot_modifyBlock_other` and its like.

`Slotted` is the discipline: the slots in `order` are those that are live, once each, and the
vacant ones are dead.  The order is a PARAMETER, not the one in the record, since a change of
the tiling gives slots up one by one and puts the new order in place only at the end.
-/

namespace DebugLink.Areas

variable {w : Nat} {s : Areas w} {order rest : List Nat} {i j : Nat}

/-- What slot `i` holds. -/
def slot (s : Areas w) (i : Nat) : Slot w :=
  s.slots.getD i default

/-- The handle on the block in slot `i`. -/
def handle (s : Areas w) (i : Nat) : Area w where
  id := { owner := s.id, index := i, generation := (s.slot i).generation }
  address := (s.block i).address
  size := (s.block i).size

/-- The block of a slot is part of it. -/
theorem block_eq (s : Areas w) (i : Nat) : s.block i = (s.slot i).block := rfl

/-- No default takes the place of a slot that there is. -/
theorem getElem?_slot (hi : i < s.slots.size) : s.slots[i]? = some (s.slot i) := by
  rw [slot, Array.getD_eq_getD_getElem?, Array.getElem?_eq_getElem hi]
  rfl

/-- A slot that is modified changes, and no other. -/
theorem getD_modify {slots : Array (Slot w)} {f : Slot w → Slot w} (hi : i < slots.size) :
    (slots.modify i f).getD j default =
      if j = i then f (slots.getD i default) else slots.getD j default := by
  by_cases hj : j = i
  · subst hj
    simp [Array.getElem_modify, hi]
  · simp [Array.getElem?_modify, hj, Ne.symm hj]

/-- The members of a list around one of them. -/
theorem mem_middle {p q : List Nat} : j ∈ p ++ i :: q ↔ j = i ∨ j ∈ p ++ q :=
  List.perm_middle.mem_iff.trans List.mem_cons

/-! ## Single slots -/

/-- Changing a block changes its slot in nothing else. -/
theorem slot_modifyBlock_self {f : Block w → Block w} (hi : i < s.slots.size) :
    (s.modifyBlock i f).slot i = { s.slot i with block := f (s.block i) } :=
  (getD_modify hi).trans (if_pos rfl)

/-- The other slots are as before. -/
theorem slot_modifyBlock_other {f : Block w → Block w} (hi : i < s.slots.size) (hj : j ≠ i) :
    (s.modifyBlock i f).slot j = s.slot j :=
  (getD_modify hi).trans (if_neg hj)

/-- A block that is given back is free, and its slot one generation older. -/
theorem slot_release_self (hi : i < s.slots.size) :
    (s.release i).slot i = { s.slot i with
      generation := (s.slot i).generation + 1
      block := { s.block i with free := true } } :=
  (getD_modify hi).trans (if_pos rfl)

/-- The other slots are as before. -/
theorem slot_release_other (hi : i < s.slots.size) (hj : j ≠ i) :
    (s.release i).slot j = s.slot j :=
  (getD_modify hi).trans (if_neg hj)

/-- The block in slot `i` is handed out. -/
def handOut (s : Areas w) (i : Nat) : Areas w :=
  s.modifyBlock i ({ · with free := false })

/-- A block that is handed out is in use, and its slot of the same generation. -/
theorem slot_handOut_self (hi : i < s.slots.size) :
    (s.handOut i).slot i = { s.slot i with block := { s.block i with free := false } } :=
  slot_modifyBlock_self hi

/-- The other slots are as before. -/
theorem slot_handOut_other (hi : i < s.slots.size) (hj : j ≠ i) :
    (s.handOut i).slot j = s.slot j :=
  slot_modifyBlock_other hi hj

/-- A vacant slot holds no block. -/
theorem slot_vacate_self (hi : i < s.slots.size) : ((s.vacate i).slot i).live = false :=
  congrArg Slot.live ((getD_modify hi).trans (if_pos rfl))

/-- It is one generation older, so that no handle holds on to it. -/
theorem generation_vacate_self (hi : i < s.slots.size) :
    ((s.vacate i).slot i).generation = (s.slot i).generation + 1 :=
  congrArg Slot.generation ((getD_modify hi).trans (if_pos rfl))

/-- The other slots are as before. -/
theorem slot_vacate_other (hi : i < s.slots.size) (hj : j ≠ i) :
    (s.vacate i).slot j = s.slot j :=
  (getD_modify hi).trans (if_neg hj)

/-- No slot is added by changing a block, ... -/
@[simp] theorem size_modifyBlock (s : Areas w) (i : Nat) (f : Block w → Block w) :
    (s.modifyBlock i f).slots.size = s.slots.size :=
  Array.size_modify

/-- ... nor by giving one back, ... -/
@[simp] theorem size_release (s : Areas w) (i : Nat) : (s.release i).slots.size = s.slots.size :=
  Array.size_modify

/-- ... and a vacant slot is not taken away. -/
@[simp] theorem size_vacate (s : Areas w) (i : Nat) : (s.vacate i).slots.size = s.slots.size :=
  Array.size_modify

/-- The handle depends on the slot alone. -/
theorem handle_congr {s' : Areas w} (hid : s'.id = s.id) (h : s'.slot i = s.slot i) :
    s'.handle i = s.handle i := by
  simp only [handle, block_eq, hid, h]

/-! ## The discipline -/

/-- The slots of `order` are the live ones, once each; vacant slots are dead. -/
structure Slotted (s : Areas w) (order : List Nat) : Prop where
  nodup : order.Nodup
  mem_iff : ∀ i, i ∈ order ↔ i < s.slots.size ∧ (s.slot i).live = true
  vacant_nodup : s.vacant.Nodup
  vacant : ∀ i ∈ s.vacant, i < s.slots.size ∧ (s.slot i).live = false

namespace Slotted

/-- A slot occurs once. -/
theorem apart {p q : List Nat} (h : Slotted s (p ++ i :: q)) : i ∉ p ∧ i ∉ q := by
  have hn := (List.perm_middle.nodup_iff.mp h.nodup)
  obtain ⟨hi, _⟩ := List.nodup_cons.mp hn
  exact ⟨fun hp => hi (List.mem_append_left q hp), fun hq => hi (List.mem_append_right p hq)⟩

/-- The others are not it. -/
theorem ne_of_mem {p q : List Nat} (h : Slotted s (p ++ i :: q)) (hj : j ∈ p ++ q) : j ≠ i := by
  obtain ⟨hp, hq⟩ := h.apart
  rintro rfl
  rcases List.mem_append.mp hj with hj | hj
  · exact hp hj
  · exact hq hj

/-- The same order, with the second of two neighbours in the middle. -/
theorem second {p q : List Nat} (h : Slotted s (p ++ i :: j :: q)) :
    Slotted s ((p ++ [i]) ++ j :: q) := by
  rw [List.append_assoc]
  exact h

/-- A slot that is listed is there. -/
theorem lt_size (h : Slotted s order) (hi : i ∈ order) : i < s.slots.size :=
  ((h.mem_iff i).mp hi).1

/-- A slot in use is not vacant. -/
theorem not_vacant (h : Slotted s order) (hi : i ∈ order) : i ∉ s.vacant := by
  intro hv
  have hlive := ((h.mem_iff i).mp hi).2
  rw [(h.vacant i hv).2] at hlive
  exact absurd hlive Bool.false_ne_true

/-- In which order the slots are listed does not matter. -/
theorem perm (h : Slotted s order) {order' : List Nat} (hp : order.Perm order') :
    Slotted s order' where
  nodup := hp.nodup_iff.mp h.nodup
  mem_iff := fun i => hp.mem_iff.symm.trans (h.mem_iff i)
  vacant_nodup := h.vacant_nodup
  vacant := h.vacant

/-- The order in the record plays no part. -/
theorem withOrder (h : Slotted s order) (o : List Nat) : Slotted { s with order := o } order :=
  ⟨h.nodup, h.mem_iff, h.vacant_nodup, h.vacant⟩

/-- A change that keeps a slot alive or dead. -/
theorem congr_live (h : Slotted s order) {s' : Areas w} (hsize : s'.slots.size = s.slots.size)
    (hlive : ∀ j, (s'.slot j).live = (s.slot j).live) (hv : s'.vacant = s.vacant) :
    Slotted s' order where
  nodup := h.nodup
  mem_iff := by
    intro j
    rw [hsize, hlive]
    exact h.mem_iff j
  vacant_nodup := by
    rw [hv]
    exact h.vacant_nodup
  vacant := by
    intro j hj
    rw [hsize, hlive]
    rw [hv] at hj
    exact h.vacant j hj

/-- Changing a block keeps the discipline. -/
theorem modifyBlock (h : Slotted s order) (hi : i ∈ order) (f : Block w → Block w) :
    Slotted (s.modifyBlock i f) order := by
  refine h.congr_live (size_modifyBlock s i f) ?_ rfl
  intro j
  by_cases hj : j = i
  · subst hj
    rw [slot_modifyBlock_self (h.lt_size hi)]
  · rw [slot_modifyBlock_other (h.lt_size hi) hj]

/-- So does giving it back. -/
theorem release (h : Slotted s order) (hi : i ∈ order) : Slotted (s.release i) order := by
  refine h.congr_live (size_release s i) ?_ rfl
  intro j
  by_cases hj : j = i
  · subst hj
    rw [slot_release_self (h.lt_size hi)]
  · rw [slot_release_other (h.lt_size hi) hj]

/-- A slot is given up. -/
theorem vacate (h : Slotted s (i :: rest)) : Slotted (s.vacate i) rest := by
  obtain ⟨hni, hnodup⟩ := List.nodup_cons.mp h.nodup
  have hi : i < s.slots.size := h.lt_size List.mem_cons_self
  have hlive : (s.slot i).live = true := ((h.mem_iff i).mp List.mem_cons_self).2
  refine ⟨hnodup, ?_, ?_, ?_⟩
  · intro j
    rw [size_vacate]
    by_cases hj : j = i
    · subst hj
      rw [slot_vacate_self hi]
      constructor
      · intro hmem
        exact absurd hmem hni
      · rintro ⟨_, hdead⟩
        exact absurd hdead Bool.false_ne_true
    · rw [slot_vacate_other hi hj, ← h.mem_iff j, List.mem_cons]
      constructor
      · exact Or.inr
      · rintro (rfl | hmem)
        · exact absurd rfl hj
        · exact hmem
  · refine List.nodup_cons.mpr ⟨?_, h.vacant_nodup⟩
    intro hmem
    have hdead := (h.vacant i hmem).2
    rw [hlive] at hdead
    exact absurd hdead.symm Bool.false_ne_true
  · intro j hj
    rw [size_vacate]
    rcases List.mem_cons.mp hj with rfl | hmem
    · exact ⟨hi, slot_vacate_self hi⟩
    · by_cases hji : j = i
      · subst hji
        exact ⟨hi, slot_vacate_self hi⟩
      · rw [slot_vacate_other hi hji]
        exact h.vacant j hmem

/-- A slot comes to life. -/
theorem revive (h : Slotted s order) {s' : Areas w} (hni : i ∉ order)
    (hi : i < s'.slots.size ∧ (s'.slot i).live = true)
    (hother : ∀ j, j ≠ i → (j < s'.slots.size ↔ j < s.slots.size) ∧ s'.slot j = s.slot j)
    (hnodup : s'.vacant.Nodup) (hvacant : ∀ j ∈ s'.vacant, j ≠ i ∧ j ∈ s.vacant) :
    Slotted s' (i :: order) := by
  refine ⟨List.nodup_cons.mpr ⟨hni, h.nodup⟩, ?_, hnodup, ?_⟩
  · intro j
    rw [List.mem_cons]
    by_cases hj : j = i
    · subst hj
      exact ⟨fun _ => hi, fun _ => Or.inl rfl⟩
    · obtain ⟨hlt, hslot⟩ := hother j hj
      rw [hlt, hslot, ← h.mem_iff j]
      exact ⟨fun hm => hm.resolve_left hj, Or.inr⟩
  · intro j hj
    obtain ⟨hji, hmem⟩ := hvacant j hj
    obtain ⟨hlt, hslot⟩ := hother j hji
    rw [hlt, hslot]
    exact h.vacant j hmem

end Slotted

/-! ## New blocks -/

/-- A slot that is added comes last. -/
theorem slot_push (slots : Array (Slot w)) (x : Slot w) (j : Nat) :
    (slots.push x).getD j default = if j = slots.size then x else slots.getD j default := by
  simp only [Array.getD_eq_getD_getElem?, Array.getElem?_push]
  split <;> rfl

/-- A vacant slot comes back to life. -/
theorem insert_vacant (h : Slotted s order) (b : Block w) {vacant : List Nat}
    (hv : s.vacant = i :: vacant) :
    i ∉ order ∧ (s.insert b).1 = i ∧ ((s.insert b).2.slot i).block = b ∧
    (∀ j, j ≠ i → (s.insert b).2.slot j = s.slot j) ∧ Slotted (s.insert b).2 (i :: order) := by
  obtain ⟨hi, hdead⟩ := h.vacant i (hv ▸ List.mem_cons_self)
  obtain ⟨hnv, hvn⟩ := List.nodup_cons.mp (hv ▸ h.vacant_nodup)
  have hni : i ∉ order := by
    intro hmem
    have hlive := ((h.mem_iff i).mp hmem).2
    rw [hdead] at hlive
    exact absurd hlive Bool.false_ne_true
  have hs : s.insert b = (i, { s with
      vacant := vacant
      slots := s.slots.modify i fun slot => { slot with live := true, block := b } }) := by
    rw [insert, hv]
  have hself : (s.insert b).2.slot i = { s.slot i with live := true, block := b } := by
    rw [hs]
    exact (getD_modify hi).trans (if_pos rfl)
  have hother : ∀ j, j ≠ i → (s.insert b).2.slot j = s.slot j := by
    intro j hj
    rw [hs]
    exact (getD_modify hi).trans (if_neg hj)
  have hsize : (s.insert b).2.slots.size = s.slots.size := by
    rw [hs]
    exact Array.size_modify
  have hvacant : (s.insert b).2.vacant = vacant := by rw [hs]
  refine ⟨hni, by rw [hs], by rw [hself], hother, h.revive hni ?_ ?_ ?_ ?_⟩
  · rw [hsize, hself]
    exact ⟨hi, rfl⟩
  · intro j hj
    rw [hsize]
    exact ⟨Iff.rfl, hother j hj⟩
  · rw [hvacant]
    exact hvn
  · intro j hj
    rw [hvacant] at hj
    exact ⟨ne_of_mem_of_not_mem hj hnv, hv ▸ List.mem_cons_of_mem i hj⟩

/-- A new slot is added behind the others. -/
theorem insert_push (h : Slotted s order) (b : Block w) (hv : s.vacant = []) :
    s.slots.size ∉ order ∧ (s.insert b).1 = s.slots.size ∧
    ((s.insert b).2.slot s.slots.size).block = b ∧
    (∀ j, j ≠ s.slots.size → (s.insert b).2.slot j = s.slot j) ∧
    Slotted (s.insert b).2 (s.slots.size :: order) := by
  have hni : s.slots.size ∉ order := by
    intro hmem
    exact absurd (h.lt_size hmem) (Nat.lt_irrefl _)
  have hs : s.insert b = (s.slots.size, { s with slots := s.slots.push { block := b } }) := by
    rw [insert, hv]
  have hself : (s.insert b).2.slot s.slots.size = { block := b } := by
    rw [hs]
    exact (slot_push _ _ _).trans (if_pos rfl)
  have hother : ∀ j, j ≠ s.slots.size → (s.insert b).2.slot j = s.slot j := by
    intro j hj
    rw [hs]
    exact (slot_push _ _ _).trans (if_neg hj)
  have hsize : (s.insert b).2.slots.size = s.slots.size + 1 := by
    rw [hs]
    exact Array.size_push _
  have hvacant : (s.insert b).2.vacant = [] := by
    rw [hs]
    exact hv
  refine ⟨hni, by rw [hs], by rw [hself], hother, h.revive hni ?_ ?_ ?_ ?_⟩
  · rw [hsize, hself]
    exact ⟨Nat.lt_succ_self _, rfl⟩
  · intro j hj
    rw [hsize]
    exact ⟨by omega, hother j hj⟩
  · rw [hvacant]
    exact List.nodup_nil
  · intro j hj
    rw [hvacant] at hj
    exact absurd hj List.not_mem_nil

/-- A block goes into a slot of its own, and leaves the others alone. -/
theorem insert_spec (h : Slotted s order) (b : Block w) :
    (s.insert b).1 ∉ order ∧ (s.insert b).2.block (s.insert b).1 = b ∧
    (∀ j, j ≠ (s.insert b).1 → (s.insert b).2.slot j = s.slot j) ∧
    Slotted (s.insert b).2 ((s.insert b).1 :: order) := by
  cases hv : s.vacant with
  | cons i vacant =>
      obtain ⟨hni, hfst, hself, hother, hs⟩ := insert_vacant h b hv
      rw [hfst]
      exact ⟨hni, hself, hother, hs⟩
  | nil =>
      obtain ⟨hni, hfst, hself, hother, hs⟩ := insert_push h b hv
      rw [hfst]
      exact ⟨hni, hself, hother, hs⟩

/-- A new block leaves the arena what it is, ... -/
@[simp] theorem insert_id (s : Areas w) (b : Block w) : (s.insert b).2.id = s.id := by
  rw [insert]
  split <;> rfl

/-- ... with its configuration, ... -/
@[simp] theorem insert_config (s : Areas w) (b : Block w) :
    (s.insert b).2.config = s.config := by
  rw [insert]
  split <;> rfl

/-- ... and is not listed yet. -/
@[simp] theorem insert_order (s : Areas w) (b : Block w) : (s.insert b).2.order = s.order := by
  rw [insert]
  split <;> rfl

/-- Cutting leaves the arena what it is, ... -/
theorem split_id (s : Areas w) (i n : Nat) : (s.split i n).id = s.id := by
  simp only [split]
  split
  · rfl
  · exact insert_id _ _

/-- ... with its configuration. -/
theorem split_config (s : Areas w) (i n : Nat) : (s.split i n).config = s.config := by
  simp only [split]
  split
  · rfl
  · exact insert_config _ _

end DebugLink.Areas
