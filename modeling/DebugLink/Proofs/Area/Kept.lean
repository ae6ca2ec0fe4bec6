import DebugLink.Proofs.Area.Phases
import DebugLink.Proofs.Bench

/-!
# What backups keep

`Kept` relates an open window to what the memory held when it was opened: outside the live areas
the memory holds it STILL, and for each block that is not free the areas hold what was under it.
Backups of free blocks play no part, be they stale or of another size.

Handing out a block keeps this if what was saved is what the memory holds there
(`Kept.handOut`); taking one back keeps it if the memory holds what was saved (`Kept.release`).
-/

namespace DebugLink

/-- An area covers the addresses of its bytes. -/
def Area.Covers {w : Nat} (a : Area w) (x : Nat) : Prop :=
  a.address.toNat ≤ x ∧ x < a.address.toNat + a.size

namespace Areas

variable {w : Nat} {s s' : Areas w} {order p q : List Nat} {i j n a z x : Nat}
  {live : List (Area w)} {base : BitVec w} {original m m' : Contents}

/-- No live area covers a byte of another block. -/
theorem Tiled.apart_of_other (h : Tiled s order live base) (hi : i ∈ order)
    (hx : (s.handle i).Covers x) {a : Area w} (ha : a ∈ live) (hid : a.id ≠ (s.handle i).id) :
    ¬a.Covers x := by
  obtain ⟨j, hj, _, rfl⟩ := mem_handles.mp (h.handles.mem_iff.mp ha)
  have hij : i ≠ j := by
    rintro rfl
    exact hid rfl
  have hapart := h.tiles.disjoint hi hj hij
  rintro ⟨hlow, hhigh⟩
  obtain ⟨hlow', hhigh'⟩ := hx
  have h1 : (s.block j).address.toNat ≤ x := hlow
  have h2 : x < (s.block j).address.toNat + (s.block j).size := hhigh
  have h3 : (s.block i).address.toNat ≤ x := hlow'
  have h4 : x < (s.block i).address.toNat + (s.block i).size := hhigh'
  omega

/-- No live area covers a byte of a free block. -/
theorem Tiled.apart_of_free (h : Tiled s order live base) (hi : i ∈ order)
    (hf : (s.block i).free = true) (hx : (s.handle i).Covers x) {a : Area w} (ha : a ∈ live) :
    ¬a.Covers x := by
  refine h.apart_of_other hi hx ha ?_
  obtain ⟨j, hj, hfj, rfl⟩ := mem_handles.mp (h.handles.mem_iff.mp ha)
  intro hid
  have hji : j = i := congrArg AreaId.index hid
  rw [hji, hf] at hfj
  exact absurd hfj (by simp)

/-! ## The invariant -/

/-- What was under each block that is not free is saved. -/
def Saved (s : Areas w) (order : List Nat) (original : Contents) : Prop :=
  ∀ i ∈ order, (s.block i).free = false → (s.block i).backup =
    some (original.slice (s.block i).address.toNat (s.block i).size)

/-- Outside the live areas, the window holds what it held when it was opened. -/
def Outside (s : Areas w) (live : List (Area w)) (base : BitVec w) (original m : Contents) :
    Prop :=
  ∀ x, base.toNat ≤ x → x < base.toNat + s.config.usable → (∀ a ∈ live, ¬a.Covers x) →
    m x = original x

/-- Both. -/
structure Kept (s : Areas w) (live : List (Area w)) (base : BitVec w) (original m : Contents) :
    Prop where
  outside : Outside s live base original m
  saved : Saved s s.order original

/-- Only blocks in use keep anything. -/
theorem Saved.congr (h : Saved s order original) (hb : ∀ j ∈ order,
    (s'.block j).free = false → s'.block j = s.block j) : Saved s' order original := by
  intro j hj hf
  have heq := hb j hj hf
  rw [heq] at hf ⊢
  exact h j hj hf

/-- What lies outside is told by the configuration. -/
theorem Outside.congr (h : Outside s live base original m) (hconfig : s'.config = s.config) :
    Outside s' live base original m := by
  intro x hlow hhigh
  rw [hconfig] at hhigh
  exact h x hlow hhigh

/-! ## The operations -/

/-- If no handle holds, there is nothing to save. -/
theorem Tiled.saved_nil (h : Tiled s order [] base) : Saved s order original := by
  intro i hi hf
  have hmem : s.handle i ∈ ([] : List (Area w)) :=
    h.handles.mem_iff.mpr (mem_handles.mpr ⟨i, hi, hf, rfl⟩)
  exact absurd hmem List.not_mem_nil

/-- In a window that was just opened nothing is handed out. -/
theorem Closed.kept (h : Closed s live) (hfits : Arch.Fits base s.config.usable) :
    Kept (s.openAt base) live base original original := by
  obtain ⟨hopen, _⟩ := h.openAt hfits
  rw [h.live] at hopen ⊢
  exact ⟨fun _ _ _ _ => rfl, hopen.toTiled.saved_nil⟩

/-- Only a free block is cut, and only free blocks come of it. -/
theorem Saved.split (h : Saved s s.order original) (hs : Slotted s s.order) (hi : i ∈ s.order)
    (hf : (s.block i).free = true) (n : Nat) :
    Saved (s.split i n) (s.split i n).order original := by
  rcases Nat.lt_or_ge n (s.block i).size with hn | hn
  · obtain ⟨p, q, ho⟩ := List.append_of_mem hi
    rw [ho] at h hs
    obtain ⟨new, horder, _, _, hself, hnew, hother, _, _⟩ := split_spec hs ho hn
    rw [horder]
    intro j hj hfj
    have hold : j ∈ p ++ q := by
      have hji : j ≠ i := by
        rintro rfl
        rw [block_eq, hself, hf] at hfj
        exact absurd hfj (by simp)
      have hjn : j ≠ new := by
        rintro rfl
        rw [hnew] at hfj
        exact absurd hfj (by simp)
      exact (mem_middle.mp ((mem_middle.mp hj).resolve_left hji)).resolve_left hjn
    have heq : (s.split i n).block j = s.block j := by rw [block_eq, hother j hold, block_eq]
    have hmem : j ∈ p ++ i :: q := mem_middle.mpr (Or.inr hold)
    rw [heq] at hfj ⊢
    exact h j hmem hfj
  · rw [show s.split i n = s from if_pos hn]
    exact h

/-- A change to a free block loses nothing. -/
theorem Saved.modifyFree (h : Saved s order original) (hs : Slotted s order) (hi : i ∈ order)
    (hf : (s.block i).free = true) {f : Block w → Block w}
    (hff : ∀ b, (f b).free = b.free) : Saved (s.modifyBlock i f) order original := by
  have hlt := hs.lt_size hi
  refine h.congr ?_
  intro j _ hfj
  by_cases hji : j = i
  · subst hji
    rw [block_eq, slot_modifyBlock_self hlt, hff, hf] at hfj
    exact absurd hfj (by simp)
  · rw [block_eq, slot_modifyBlock_other hlt hji, block_eq]

/-- A block that is handed out with its backup keeps what was there. -/
theorem Saved.handOut (h : Saved s order original) (hs : Slotted s order) (hi : i ∈ order)
    (hb : (s.block i).backup =
      some (original.slice (s.block i).address.toNat (s.block i).size)) :
    Saved (s.handOut i) order original := by
  have hlt := hs.lt_size hi
  intro j hj hfj
  by_cases hji : j = i
  · subst hji
    rw [block_eq, slot_handOut_self hlt]
    exact hb
  · have heq : (s.handOut i).block j = s.block j := by
      rw [block_eq, slot_handOut_other hlt hji, block_eq]
    rw [heq] at hfj ⊢
    exact h j hj hfj

/-- A block that is given back keeps nothing any longer. -/
theorem Saved.release (h : Saved s order original) (hs : Slotted s order) (hi : i ∈ order) :
    Saved (s.release i) order original := by
  have hlt := hs.lt_size hi
  refine h.congr ?_
  intro j _ hfj
  by_cases hji : j = i
  · subst hji
    rw [block_eq, slot_release_self hlt] at hfj
    exact absurd hfj (by simp)
  · rw [block_eq, slot_release_other hlt hji, block_eq]

/-- A free block that takes in the next keeps nothing. -/
theorem Saved.absorb {b : Nat} (h : Saved s (p ++ a :: b :: q) original)
    (hs : Slotted s (p ++ a :: b :: q)) (ha : (s.block a).free = true) :
    Saved (s.absorb a b) (p ++ a :: q) original := by
  obtain ⟨hs', hself, hother⟩ := absorb_spec hs
  intro j hj hfj
  have hja : j ≠ a := by
    rintro rfl
    rw [hself, ha] at hfj
    exact absurd hfj (by simp)
  have hmem : j ∈ p ++ q := (mem_middle.mp hj).resolve_left hja
  have hjb : j ≠ b := by
    refine hs.second.ne_of_mem ?_
    rw [List.append_assoc]
    exact hj
  have heq : (s.absorb a b).block j = s.block j := by
    rw [block_eq, hother j hja hjb, block_eq]
  rw [heq] at hfj ⊢
  exact h j (mem_middle.mpr (Or.inr (mem_middle.mpr (Or.inr hmem)))) hfj

/-- So it is when all neighbours are joined. -/
theorem Saved.merge (h : Saved s s.order original) (hs : Slotted s s.order) :
    Saved s.merge s.merge.order original := by
  have hboth := merge_induction (P := fun s o => Slotted s o ∧ Saved s o original)
    (fun s p a b q h ha _ => ⟨(absorb_spec h.1).1, h.2.absorb h.1 ha⟩)
    (fun s o o' h => ⟨h.1.withOrder o', h.2⟩) ⟨hs, h⟩
  exact hboth.2

namespace Kept

/-- Cutting a free block does not touch memory. -/
theorem split (h : Kept s live base original m) (hs : Slotted s s.order) (hi : i ∈ s.order)
    (hf : (s.block i).free = true) (n : Nat) : Kept (s.split i n) live base original m where
  outside := h.outside.congr (split_config s i n)
  saved := h.saved.split hs hi hf n

/-- Nor does joining free blocks. -/
theorem merge (h : Kept s live base original m) (hs : Slotted s s.order) :
    Kept s.merge live base original m where
  outside := h.outside.congr (merge_config s)
  saved := h.saved.merge hs

/-- The backup of a free block plays no part. -/
theorem modifyBackup (h : Kept s live base original m) (hs : Slotted s s.order)
    (hi : i ∈ s.order) (hf : (s.block i).free = true) (f : Block w → Option (List UInt8)) :
    Kept (s.modifyBlock i fun b => { b with backup := f b }) live base original m where
  outside := h.outside.congr rfl
  saved := h.saved.modifyFree hs hi hf fun _ => rfl

/-- What the memory holds under a free block is what it held in the beginning. -/
theorem slice_eq (h : Kept s live base original m) (ht : Tiled s s.order live base)
    (hi : i ∈ s.order) (hf : (s.block i).free = true) :
    m.slice (s.block i).address.toNat (s.block i).size =
      original.slice (s.block i).address.toNat (s.block i).size := by
  have hin := ht.tiles.inside hi
  refine Contents.slice_congr ?_
  intro k hk
  refine h.outside _ (by omega) (by omega) ?_
  intro a ha
  exact ht.apart_of_free hi hf ⟨Nat.le_add_right _ _, Nat.add_lt_add_left hk _⟩ ha

/-- A block that was saved may be written to. -/
theorem handOut (h : Kept s live base original m) (hs : Slotted s s.order) (hi : i ∈ s.order)
    (hb : (s.block i).backup =
      some (original.slice (s.block i).address.toNat (s.block i).size)) (a : Area w) :
    Kept (s.handOut i) (live ++ [a]) base original m where
  outside := by
    intro x hlow hhigh hlive
    exact h.outside x hlow hhigh fun a ha => hlive a (List.mem_append_left _ ha)
  saved := h.saved.handOut hs hi hb

/-- A block is taken back, and the memory holds what was under it, and is else unchanged. -/
theorem release (h : Kept s live base original m) (hs : Slotted s s.order) (hi : i ∈ s.order)
    (hin : ∀ x, (s.handle i).Covers x → m' x = original x)
    (hout : ∀ x, ¬(s.handle i).Covers x → m' x = m x)
    (hsame : ∀ a ∈ live, a.id = (s.handle i).id → a = s.handle i) :
    Kept (s.release i) (without live (s.handle i).id) base original m' where
  outside := by
    intro x hlow hhigh hlive
    by_cases hx : (s.handle i).Covers x
    · exact hin x hx
    · rw [hout x hx]
      refine h.outside x hlow hhigh ?_
      intro a ha hcov
      by_cases hid : a.id = (s.handle i).id
      · exact hx (hsame a ha hid ▸ hcov)
      · exact hlive a (List.mem_filter.mpr ⟨ha, decide_eq_true hid⟩) hcov
  saved := h.saved.release hs hi

end Kept

/-- Only one handle that holds has the id of a block. -/
theorem Tiled.handle_unique (h : Tiled s order live base) {b : Area w} (hb : b ∈ live)
    (hid : b.id = (s.handle i).id) : b = s.handle i := by
  obtain ⟨j, _, _, rfl⟩ := mem_handles.mp (h.handles.mem_iff.mp hb)
  have hji : j = i := congrArg AreaId.index hid
  rw [hji]

end Areas

end DebugLink
