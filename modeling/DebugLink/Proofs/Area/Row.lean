import DebugLink.Proofs.Area.Operations
import DebugLink.Proofs.Area.Twins

/-!
# Blocks in a row, exactly

`shown` leaves out what is saved for free blocks.  This file leaves out nothing: it says what the
layout is after a change, block by block.

* `joined` touches nothing in a row without free neighbours (`joined_self`), and in a longer row
  nothing in front of the place where there are some (`joined_append`).
* `Around` is a block of such a row, its free neighbours, AT MOST ONE ON EACH SIDE, and what lies
  beyond; `joined_around` is what giving the block back makes of the row.
* `Sits` is a slot whose block lies in a given place.  Each change of the tiling comes with what it
  makes of that place (`Sits.split`, `Sits.modifyBlock`, `Sits.release`).
* `Untouched` slots are still in use and were left alone; a handle on one of them `StillHolds`.
-/

namespace DebugLink

variable {w : Nat}

/-- They are not both free. -/
def Block.Apart (a b : Block w) : Prop :=
  ¬(a.free = true ∧ b.free = true)

/-- What becomes of a block that is given back between these free neighbours. -/
def Block.over (b : Block w) (left right : List (Block w)) : Block w where
  address := (left.headD b).address
  size := ((left ++ b :: right).map (·.size)).sum
  free := true
  backup := if left = [] ∧ right = [] then b.backup else none

/-- A block of a row, its free neighbours, and what lies beyond them. -/
structure Around (row before left : List (Block w)) (b : Block w) (right after : List (Block w)) :
    Prop where
  row : row = before ++ (left ++ b :: (right ++ after))
  atMostOne : left.length ≤ 1 ∧ right.length ≤ 1
  free : ∀ c ∈ left ++ right, c.free = true
  /-- What lies beyond begins with a block that is not free. -/
  ends : (∀ c ∈ before.getLast?, c.free = false) ∧ ∀ c ∈ after.head?, c.free = false

section Rows

variable {a b : Block w} {l p q before left right after : List (Block w)}

/-- A block in use is not joined with anything. -/
theorem Block.apart_of_live (h : a.free = false ∨ b.free = false) : a.Apart b := by
  rintro ⟨ha, hb⟩
  rcases h with h | h
  · rw [ha] at h
    exact absurd h (by simp)
  · rw [hb] at h
    exact absurd h (by simp)

/-- Of two blocks that stay apart, one is in use: the second if the first is free, ... -/
theorem Block.Apart.live_right (h : a.Apart b) (ha : a.free = true) : b.free = false := by
  cases hb : b.free with
  | false => rfl
  | true => exact absurd ⟨ha, hb⟩ h

/-- ... and the first if the second is. -/
theorem Block.Apart.live_left (h : a.Apart b) (hb : b.free = true) : a.free = false := by
  cases ha : a.free with
  | false => rfl
  | true => exact absurd ⟨ha, hb⟩ h

/-! ## Joining -/

/-- Blocks that stay apart stay as they are. -/
theorem joined_cons_apart (h : a.Apart b) : joined (a :: b :: l) = a :: joined (b :: l) :=
  if_neg fun hboth => h (Bool.and_eq_true_iff.mp hboth)

/-- Two free blocks become one, which may be joined with the next. -/
theorem joined_cons_free (ha : a.free = true) (hb : b.free = true) :
    joined (a :: b :: l) = joined ({ a with size := a.size + b.size, backup := none } :: l) :=
  if_pos (Bool.and_eq_true_iff.mpr ⟨ha, hb⟩)

/-- Nothing in front of a block is touched if there are no free neighbours up to it. -/
theorem joined_append (h : (p ++ [b]).IsChain Block.Apart) :
    joined (p ++ b :: q) = p ++ joined (b :: q) := by
  induction p with
  | nil => rfl
  | cons a p ih =>
      cases p with
      | nil => exact joined_cons_apart (List.isChain_cons_cons.mp h).1
      | cons c p =>
          obtain ⟨hac, hrest⟩ := List.isChain_cons_cons.mp h
          exact (joined_cons_apart hac).trans (congrArg (a :: ·) (ih hrest))

/-- A row without free neighbours is left alone. -/
theorem joined_self (h : l.IsChain Block.Apart) : joined l = l := by
  rcases List.eq_nil_or_concat l with rfl | ⟨p, b, rfl⟩
  · rfl
  · rw [List.concat_eq_append] at h ⊢
    exact joined_append h

/-- A free block in front of a row swallows the free ones that it begins with. -/
theorem joined_cons_right (ha : a.free = true) (hone : right.length ≤ 1)
    (hright : ∀ c ∈ right, c.free = true) (hafter : after.IsChain Block.Apart)
    (hends : ∀ c ∈ after.head?, c.free = false) :
    joined (a :: (right ++ after)) = { a with
      size := a.size + (right.map (·.size)).sum
      backup := if right = [] then a.backup else none } :: after := by
  have hstop : ∀ c : Block w, joined (c :: after) = c :: after := by
    intro c
    refine joined_self (List.isChain_cons.mpr ⟨?_, hafter⟩)
    exact fun d hd => Block.apart_of_live (Or.inr (hends d hd))
  match right, hone with
  | [], _ =>
      rw [List.nil_append, hstop]
      simp
  | [d], _ =>
      rw [List.cons_append, List.nil_append, joined_cons_free ha (hright d List.mem_cons_self),
        hstop]
      simp

/-! ## The neighbours of a block -/

/-- What lies in front of a block. -/
theorem exists_left (h : p.IsChain Block.Apart) :
    ∃ before left, p = before ++ left ∧ left.length ≤ 1 ∧ (∀ c ∈ left, c.free = true) ∧
      ∀ c ∈ before.getLast?, c.free = false := by
  rcases List.eq_nil_or_concat p with rfl | ⟨before, c, rfl⟩
  · exact ⟨[], [], rfl, by simp, nofun, nofun⟩
  · rw [List.concat_eq_append] at h ⊢
    cases hc : c.free with
    | false => exact ⟨before ++ [c], [], by simp, by simp, nofun, by simp [hc]⟩
    | true =>
        refine ⟨before, [c], rfl, by simp, by simp [hc], ?_⟩
        intro d hd
        exact Block.Apart.live_left ((List.isChain_append.mp h).2.2 d hd c rfl) hc

/-- What lies behind a block. -/
theorem exists_right (h : q.IsChain Block.Apart) :
    ∃ right after, q = right ++ after ∧ right.length ≤ 1 ∧ (∀ c ∈ right, c.free = true) ∧
      ∀ c ∈ after.head?, c.free = false := by
  cases q with
  | nil => exact ⟨[], [], rfl, by simp, nofun, nofun⟩
  | cons c after =>
      cases hc : c.free with
      | false => exact ⟨[], c :: after, rfl, by simp, nofun, by simp [hc]⟩
      | true =>
          refine ⟨[c], after, rfl, by simp, by simp [hc], ?_⟩
          intro d hd
          exact Block.Apart.live_right ((List.isChain_cons.mp h).1 d hd) hc

/-- A block of a row without free neighbours. -/
theorem exists_around (h : (p ++ b :: q).IsChain Block.Apart) :
    ∃ before left right after, p = before ++ left ∧ q = right ++ after ∧
      Around (p ++ b :: q) before left b right after := by
  obtain ⟨hp, hq⟩ := List.isChain_append.mp h |>.imp_right And.left
  obtain ⟨before, left, rfl, hleft, hfree, hends⟩ := exists_left hp
  obtain ⟨right, after, rfl, hright, hfree', hends'⟩ := exists_right hq.tail
  refine ⟨before, left, right, after, rfl, rfl, List.append_assoc _ _ _, ⟨hleft, hright⟩, ?_,
    hends, hends'⟩
  intro c hc
  exact (List.mem_append.mp hc).elim (hfree c) (hfree' c)

/-- WHAT GIVING A BLOCK BACK MAKES OF A ROW: one free block in the place of it and its free
    neighbours. -/
theorem joined_around (h : Around l before left b right after) (hl : l.IsChain Block.Apart) :
    joined (before ++ (left ++ { b with free := true } :: (right ++ after))) =
      before ++ b.over left right :: after := by
  obtain ⟨rfl, ⟨hone, hone'⟩, hfree, hends, hends'⟩ := h
  obtain ⟨hbefore, hmiddle, -⟩ := List.isChain_append.mp hl
  have hafter : after.IsChain Block.Apart :=
    (List.isChain_append.mp (List.isChain_append.mp hmiddle).2.1.tail).2.1
  have hright : ∀ c ∈ right, c.free = true := fun c hc => hfree c (List.mem_append_right left hc)
  -- whatever comes next is apart from what lies in front
  have hfront : ∀ c : Block w, (before ++ [c]).IsChain Block.Apart := by
    refine fun c => List.isChain_append.mpr ⟨hbefore, .singleton c, ?_⟩
    exact fun d hd _ _ => Block.apart_of_live (Or.inl (hends d hd))
  match left, hone, hfree with
  | [], _, _ =>
      rw [List.nil_append, joined_append (hfront _),
        joined_cons_right rfl hone' hright hafter hends']
      simp [Block.over]
  | [c], _, hfree =>
      have hc : c.free = true := hfree c List.mem_cons_self
      have hgrown := joined_cons_right (a := { c with size := c.size + b.size, backup := none }) hc
        hone' hright hafter hends'
      rw [List.cons_append, List.nil_append, joined_append (hfront _), joined_cons_free hc rfl,
        hgrown]
      simp [Block.over, hc, Nat.add_assoc]

end Rows

namespace Areas

variable {s s' : Areas w} {order p q : List Nat} {i j n : Nat} {b : Block w}
  {before after : List (Block w)}

/-- Where no two free blocks are neighbours there is nothing to join. -/
theorem Coalesced.apart (h : s.Coalesced s.order) : s.layout.IsChain Block.Apart :=
  (List.isChain_map _).mpr h

/-! ## What is left over -/

/-- What is left over, if anything, is one free block right behind. -/
theorem mem_leftOver {c : Block w} (hc : c ∈ leftOver n b) :
    n < b.size ∧ c = { address := offset b.address n, size := b.size - n, free := true } := by
  rw [leftOver] at hc
  split at hc
  · exact absurd hc List.not_mem_nil
  · next hlt => exact ⟨Nat.lt_of_not_le hlt, List.mem_singleton.mp hc⟩

/-- Cutting leaves one block over at most. -/
theorem length_leftOver (n : Nat) (b : Block w) : (leftOver n b).length ≤ 1 := by
  rw [leftOver]
  split <;> simp

/-- Nothing is lost. -/
theorem sum_leftOver (hn : n ≤ b.size) : n + ((leftOver n b).map (·.size)).sum = b.size := by
  rw [leftOver]
  split
  · next hle => simp [Nat.le_antisymm hn hle]
  · simp [Nat.add_sub_cancel' hn]

/-! ## One slot of the row -/

/-- Slot `i` holds the block `b`, which lies between those blocks. -/
structure Sits (s : Areas w) (i : Nat) (before : List (Block w)) (b : Block w)
    (after : List (Block w)) : Prop where
  slotted : Slotted s s.order
  block : s.block i = b
  place : ∃ p q, s.order = p ++ i :: q ∧ p.map s.block = before ∧ q.map s.block = after

/-- Slots that are as before hold the blocks that they held. -/
theorem map_block (h : ∀ j ∈ order, s'.slot j = s.slot j) :
    order.map s'.block = order.map s.block :=
  List.map_congr_left fun j hj => congrArg Slot.block (h j hj)

namespace Sits

/-- A slot that is listed sits between those before and those behind it. -/
theorem of_order (hs : Slotted s s.order) (ho : s.order = p ++ i :: q) :
    Sits s i (p.map s.block) (s.block i) (q.map s.block) :=
  ⟨hs, rfl, p, q, ho, rfl, rfl⟩

/-- Each slot that is listed sits somewhere. -/
theorem of_mem (hs : Slotted s s.order) (hi : i ∈ s.order) :
    ∃ before after, Sits s i before (s.block i) after := by
  obtain ⟨p, q, ho⟩ := List.append_of_mem hi
  exact ⟨_, _, .of_order hs ho⟩

theorem mem (h : Sits s i before b after) : i ∈ s.order := by
  obtain ⟨p, q, ho, -⟩ := h.place
  rw [ho]
  exact mem_middle.mpr (Or.inl rfl)

/-- The layout is what comes before, the block, and what comes behind. -/
theorem layout (h : Sits s i before b after) : s.layout = before ++ b :: after := by
  obtain ⟨p, q, ho, rfl, rfl⟩ := h.place
  rw [Areas.layout, ho, List.map_append, List.map_cons, h.block]

/-- The slot has changed, and no other. -/
theorem change {b' : Block w} (h : Sits s i before b after) (hs : Slotted s' s.order)
    (ho : s'.order = s.order) (hself : s'.block i = b')
    (hother : ∀ j, j ≠ i → s'.slot j = s.slot j) : Sits s' i before b' after := by
  obtain ⟨p, q, hpq, rfl, rfl⟩ := h.place
  rw [hpq] at hs
  refine ⟨by rwa [ho, hpq], hself, p, q, ho.trans hpq, ?_, ?_⟩
  · exact map_block fun j hj => hother j (hs.ne_of_mem (List.mem_append_left q hj))
  · exact map_block fun j hj => hother j (hs.ne_of_mem (List.mem_append_right p hj))

/-- A block that changes stays where it sits. -/
theorem modifyBlock (h : Sits s i before b after) (f : Block w → Block w) :
    Sits (s.modifyBlock i f) i before (f b) after := by
  have hlt := h.slotted.lt_size h.mem
  refine h.change (h.slotted.modifyBlock h.mem f) rfl ?_ fun j hj => slot_modifyBlock_other hlt hj
  rw [block_eq, slot_modifyBlock_self hlt, h.block]

/-- So does one that is handed out, ... -/
theorem handOut (h : Sits s i before b after) :
    Sits (s.handOut i) i before { b with free := false } after :=
  h.modifyBlock _

/-- ... and one that is given back. -/
theorem release (h : Sits s i before b after) :
    Sits (s.release i) i before { b with free := true } after := by
  have hlt := h.slotted.lt_size h.mem
  refine h.change (h.slotted.release h.mem) rfl ?_ fun j hj => slot_release_other hlt hj
  rw [block_eq, slot_release_self hlt, h.block]

/-- What is left over of a block that was cut lies right behind it. -/
theorem split (h : Sits s i before b after) (hn : n ≤ b.size) :
    Sits (s.split i n) i before
      { b with size := n, backup := if b.size ≤ n then b.backup else none }
      (leftOver n b ++ after) := by
  obtain ⟨p, q, ho, rfl, rfl⟩ := h.place
  have hblock := h.block
  rcases Nat.lt_or_eq_of_le hn with hlt | rfl
  · have hs := h.slotted
    rw [ho] at hs
    obtain ⟨new, horder, -, hslotted, hself, hnew, hother, -, -⟩ :=
      split_spec hs ho (hblock.symm ▸ hlt)
    rw [leftOver, if_neg (Nat.not_le_of_lt hlt), if_neg (Nat.not_le_of_lt hlt)]
    refine ⟨horder ▸ hslotted, ?_, p, new :: q, horder, ?_, ?_⟩
    · rw [block_eq, hself, hblock]
    · exact map_block fun j hj => hother j (List.mem_append_left q hj)
    · rw [List.map_cons, hnew, hblock, map_block fun j hj => hother j (List.mem_append_right p hj)]
      rfl
  · have hsame : s.split i b.size = s := if_pos (Nat.le_of_eq (congrArg Block.size hblock))
    rw [hsame, leftOver, if_pos (Nat.le_refl _), if_pos (Nat.le_refl _)]
    exact h

end Sits

/-- A window that was just opened is one free block. -/
theorem layout_openAt (hs : Slotted s s.order) (ho : s.order = []) (base : BitVec w) :
    (s.openAt base).layout = [{ address := base, size := s.config.usable, free := true }] := by
  obtain ⟨new, horder, -, hblock⟩ := openAt_shown base hs ho
  rw [layout, horder, List.map_singleton, hblock]

/-! ## Slots that are left alone -/

/-- Slot `j` is still in use, and was left alone. -/
def Untouched (s s' : Areas w) (j : Nat) : Prop :=
  j ∈ s'.order ∧ s'.slot j = s.slot j

namespace Untouched

/-- What is left alone twice is left alone. -/
theorem trans {s'' : Areas w} (h : Untouched s s' j) (h' : Untouched s' s'' j) :
    Untouched s s'' j :=
  ⟨h'.1, h'.2.trans h.2⟩

/-- A change to one block leaves the others alone. -/
theorem modifyBlock {f : Block w → Block w} (hs : Slotted s s.order) (hi : i ∈ s.order)
    (hj : j ∈ s.order) (hne : j ≠ i) : Untouched s (s.modifyBlock i f) j :=
  ⟨hj, slot_modifyBlock_other (hs.lt_size hi) hne⟩

/-- So does giving it back, ... -/
theorem release (hs : Slotted s s.order) (hi : i ∈ s.order) (hj : j ∈ s.order) (hne : j ≠ i) :
    Untouched s (s.release i) j :=
  ⟨hj, slot_release_other (hs.lt_size hi) hne⟩

/-- ... or cutting it. -/
theorem split (hs : Slotted s s.order) (hi : i ∈ s.order) (hj : j ∈ s.order) (hne : j ≠ i) :
    Untouched s (s.split i n) j := by
  rcases Nat.lt_or_ge n (s.block i).size with hlt | hle
  · obtain ⟨p, q, ho⟩ := List.append_of_mem hi
    rw [ho] at hs hj
    obtain ⟨new, horder, -, -, -, -, hother, -, -⟩ := split_spec hs ho hlt
    have hmem := (mem_middle.mp hj).resolve_left hne
    refine ⟨?_, hother j hmem⟩
    rw [horder]
    exact mem_middle.mpr (Or.inr (mem_middle.mpr (Or.inr hmem)))
  · rw [show s.split i n = s from if_pos hle]
    exact ⟨hj, rfl⟩

/-- Joining leaves blocks alone that are not free. -/
theorem merge (hs : Slotted s s.order) (hj : j ∈ s.order) (hf : (s.block j).free = false) :
    Untouched s s.merge j := by
  refine (merge_induction (P := fun t o => Slotted t o ∧ j ∈ o ∧ t.slot j = s.slot j) ?_ ?_
    ⟨hs, hj, rfl⟩).2
  · rintro t p a b q ⟨ht, hmem, hslot⟩ ha hb
    obtain ⟨hslotted, -, hother⟩ := absorb_spec ht
    have hlive : (t.block j).free = false := by rwa [block_eq, hslot]
    have hne : ∀ k, (t.block k).free = true → j ≠ k := by
      rintro k hk rfl
      rw [hlive] at hk
      exact absurd hk (by simp)
    refine ⟨hslotted, ?_, (hother j (hne a ha) (hne b hb)).trans hslot⟩
    have hrest := (mem_middle.mp hmem).resolve_left (hne a ha)
    exact mem_middle.mpr (Or.inr ((mem_middle.mp hrest).resolve_left (hne b hb)))
  · rintro t o o' ⟨ht, hmem, hslot⟩
    exact ⟨ht.withOrder o', hmem, hslot⟩

end Untouched

/-- The handle names the same slot in both, and that was left alone. -/
def StillHolds (s s' : Areas w) (a : Area w) : Prop :=
  ∃ i, s.slotOf? a.id = some i ∧ s'.slotOf? a.id = some i ∧ s'.slot i = s.slot i

/-- A handle on a block that was left alone holds on. -/
theorem Untouched.holds (h : Untouched s s' j) (hid : s'.id = s.id) (hs : Slotted s s.order)
    (hs' : Slotted s' s'.order) (hj : j ∈ s.order) (hf : (s.block j).free = false) :
    StillHolds s s' (s.handle j) := by
  obtain ⟨hmem, hslot⟩ := h
  have hf' : (s'.block j).free = false := by rwa [block_eq, hslot]
  have hheld := slotOf?_handle hs' hmem hf'
  rw [handle_congr hid hslot] at hheld
  exact ⟨j, slotOf?_handle hs hj hf, hheld, hslot⟩

end Areas

end DebugLink
