import DebugLink.Arch
import DebugLink.Proofs.Area.Tiling

/-!
# Closed, open, and in between

Between two operations the window is `Closed` or `Opened`, and then no two neighbours are free.
In between there are two more phases: a block that has been `Cut` to size and waits to be handed
out, and blocks that have been given back and wait to be joined.
-/

namespace DebugLink.Areas

variable {w : Nat} {s : Areas w} {order p q : List Nat} {i n : Nat} {live : List (Area w)}
  {base : BitVec w}

/-- The window is closed, and no handle holds. -/
structure Closed (s : Areas w) (live : List (Area w)) : Prop where
  order : s.order = []
  live : live = []
  slotted : Slotted s []

/-- The window is open, and tiled. -/
structure Opened (s : Areas w) (live : List (Area w)) (base : BitVec w) : Prop
    extends Tiled s s.order live base where
  nonempty : s.order ≠ []

/-- The window is closed, or open and tiled. -/
def Standing (s : Areas w) (live : List (Area w)) : Prop :=
  Closed s live ∨ ∃ base, Opened s live base

/-- Open or closed, the slots are in order. -/
theorem Standing.slotted (h : Standing s live) : Slotted s s.order := by
  rcases h with hc | ⟨base, hopen⟩
  · rw [hc.order]
    exact hc.slotted
  · exact hopen.toSlotted

/-- The handles that hold are those on the blocks that are not free. -/
theorem Standing.handles (h : Standing s live) : live.Perm (s.handles s.order) := by
  rcases h with hc | ⟨base, hopen⟩
  · rw [hc.order, hc.live]
    exact .nil
  · exact hopen.toTiled.handles

/-- Slot `i` holds a free block of `n` bytes; once it is handed out, no two neighbours are
    free. -/
structure Cut (s : Areas w) (live : List (Area w)) (base : BitVec w) (i n : Nat) : Prop
    extends Tiled s s.order live base where
  mem : i ∈ s.order
  free : (s.block i).free = true
  size : (s.block i).size = n
  coalesced : (s.handOut i).Coalesced s.order

/-! ## Opening and closing -/

/-- The window is opened at `base`, as one free block. -/
def openAt (s : Areas w) (base : BitVec w) : Areas w :=
  let new := s.insert { address := base, size := s.config.usable, free := true }
  { new.2 with order := new.2.order ++ [new.1] }

/-- Opening keeps the configuration. -/
@[simp] theorem openAt_config (s : Areas w) (base : BitVec w) :
    (s.openAt base).config = s.config :=
  insert_config _ _

/-- A window that fits is one free block. -/
theorem Closed.openAt (h : Closed s live) (hfits : Arch.Fits base s.config.usable) :
    Opened (s.openAt base) live base ∧ (s.openAt base).Coalesced (s.openAt base).order := by
  obtain ⟨new, hnew⟩ : ∃ new, new =
      s.insert { address := base, size := s.config.usable, free := true } := ⟨_, rfl⟩
  obtain ⟨_, hblock, _, hslotted⟩ :=
    insert_spec h.slotted { address := base, size := s.config.usable, free := true }
  rw [← hnew] at hblock hslotted
  have hopen : s.openAt base = { new.2 with order := [new.1] } := by
    have horder : new.2.order ++ [new.1] = [new.1] := by
      rw [hnew, insert_order, h.order]
      rfl
    rw [← horder, hnew]
    rfl
  have hconfig : new.2.config = s.config := by
    rw [hnew]
    exact insert_config _ _
  have hmem : ∀ {j : Nat}, j ∈ [new.1] → new.2.block j =
      { address := base, size := s.config.usable, free := true } := by
    intro j hj
    obtain rfl := List.mem_singleton.mp hj
    exact hblock
  have hfit : base.toNat + s.config.usable ≤ 2 ^ w := by
    have hlt := base.isLt
    rw [Arch.Fits] at hfits
    omega
  have hwords : s.config.usable % 4 = 0 := by
    rw [AreaConfig.usable]
    omega
  -- one free block, which is all of the window
  have htiled : Tiled new.2 [new.1] live base := by
    refine ⟨hslotted, ⟨?_, ?_, ?_, ?_⟩, ?_⟩
    · intro j hj
      rw [hmem hj]
      exact hwords
    · intro j hj
      rw [hmem hj, hconfig]
      rcases Nat.eq_zero_or_pos s.config.usable with hz | hp
      · exact Or.inr hz
      · exact Or.inl hp
    · rw [hconfig]
      show (new.2.block new.1).address.toNat = _ ∧
        base.toNat + (new.2.block new.1).size = base.toNat + s.config.usable
      rw [hblock]
      exact ⟨rfl, rfl⟩
    · rw [hconfig]
      exact hfit
    · rw [h.live, handles_cons_free (by rw [hblock])]
      exact .nil
  rw [hopen]
  exact ⟨⟨htiled.withOrder _, List.cons_ne_nil _ _⟩, .singleton _⟩

/-- A closed window has no layout. -/
theorem Closed.opened_eq (h : Closed s live) : s.opened = false := by
  rw [opened, h.order]
  rfl

/-- An open one has. -/
theorem Opened.opened_eq (h : Opened s live base) : s.opened = true := by
  rw [opened]
  cases ho : s.order with
  | nil => exact absurd ho h.nonempty
  | cons i rest => rfl

/-- Room is found in an open window only. -/
theorem firstFit_opened (h : s.firstFit? n = some i) : s.opened = true := by
  rw [opened]
  cases ho : s.order with
  | nil =>
      rw [firstFit?, ho] at h
      exact absurd h (by simp)
  | cons i rest => rfl

/-- New areas. -/
theorem closed_new (id : Nat) (config : AreaConfig w) : Closed { id, config } [] := by
  refine ⟨rfl, rfl, List.nodup_nil, ?_, List.nodup_nil, ?_⟩
  · intro i
    constructor
    · intro hi
      exact absurd hi List.not_mem_nil
    · rintro ⟨hi, _⟩
      exact absurd hi (Nat.not_lt_zero i)
  · intro i hi
    exact absurd hi List.not_mem_nil

/-- Everything that is thrown away closes the window. -/
theorem closed_discard (h : Slotted s s.order) : Closed s.discard [] :=
  ⟨rfl, rfl, discard_slotted h⟩

/-- So does another configuration. -/
theorem closed_setConfig (h : Slotted s s.order) (c : AreaConfig w) :
    Closed (s.setConfig c) [] := by
  have hd := discard_slotted h
  exact ⟨rfl, rfl, hd.nodup, hd.mem_iff, hd.vacant_nodup, hd.vacant⟩

/-! ## Cutting, and handing out -/

/-- A cut block that is handed out has no free neighbours on its left, and the one on the right
    of what was left over is not free either. -/
theorem Coalesced.cut {s' : Areas w} {new : Nat} (h : s.Coalesced (p ++ i :: q))
    (hf : (s.block i).free = true) (hi : (s'.block i).free = false)
    (hother : ∀ j ∈ p ++ q, (s'.block j).free = (s.block j).free) :
    s'.Coalesced (p ++ i :: new :: q) := by
  -- in front nothing became free; behind, the rest is free and its neighbour is not
  obtain ⟨hleft, hright⟩ := List.isChain_split.mp h
  refine List.isChain_split.mpr ⟨?_, ?_⟩
  · refine Coalesced.mono hleft ?_
    intro j hj hfree
    rcases List.mem_append.mp hj with hj | hj
    · rw [← hother j (List.mem_append_left q hj)]
      exact hfree
    · obtain rfl := List.mem_singleton.mp hj
      exact hf
  · refine .cons_cons ?_ ?_
    · rw [hi]
      intro hboth
      exact Bool.false_ne_true hboth.1
    · cases q with
      | nil => exact .singleton new
      | cons k rest =>
          obtain ⟨hik, hrest⟩ := List.isChain_cons_cons.mp hright
          refine .cons_cons ?_ (Coalesced.mono hrest ?_)
          · intro hboth
            rw [hother k (List.mem_append_right p List.mem_cons_self)] at hboth
            exact hik ⟨hf, hboth.2⟩
          · intro j hj hfree
            rw [← hother j (List.mem_append_right p hj)]
            exact hfree

/-- The block that was found is cut, and what is left of it follows it. -/
theorem Opened.split (h : Opened s live base) (hc : s.Coalesced s.order) (hpos : 0 < n)
    (hwords : n % 4 = 0) (hi : s.firstFit? n = some i) : Cut (s.split i n) live base i n := by
  obtain ⟨hmem, hf, hsize⟩ := firstFit_spec hi
  have hlt := h.lt_size hmem
  rcases Nat.lt_or_eq_of_le hsize with hcut | hexact
  · obtain ⟨p, q, ho⟩ := List.append_of_mem hmem
    have ht : Tiled s (p ++ i :: q) live base := ho ▸ h.toTiled
    obtain ⟨new, horder, _, _, hself, _, hother, _, _⟩ := split_spec ht.toSlotted ho hcut
    obtain ⟨new', horder', htiled⟩ := ht.split ho hf hpos hwords hcut
    have hself' : (s.split i n).block i = { s.block i with size := n, backup := none } := by
      rw [block_eq, hself]
    have hmem' : i ∈ (s.split i n).order := by
      rw [horder]
      exact List.mem_append_right p List.mem_cons_self
    refine ⟨?_, hmem', by rw [hself']; exact hf, by rw [hself'], ?_⟩
    · rw [horder']
      exact htiled
    · rw [ho] at hc
      rw [horder']
      have hlt' := htiled.lt_size (horder' ▸ hmem')
      refine hc.cut hf (by rw [block_eq, slot_handOut_self hlt']) ?_
      intro j hj
      rw [block_eq, slot_handOut_other hlt' (ht.ne_of_mem hj), hother j hj, ← block_eq]
  · -- the block has the right size: it is not cut at all
    have hsame : s.split i n = s := if_pos (Nat.le_of_eq hexact.symm)
    rw [hsame]
    refine ⟨h.toTiled, hmem, hf, hexact.symm, hc.mono ?_⟩
    intro j _ hfree
    by_cases hji : j = i
    · subst hji
      exact hf
    · rw [block_eq, slot_handOut_other hlt hji, ← block_eq] at hfree
      exact hfree

namespace Cut

/-- Saving something, or forgetting it, changes nothing here. -/
theorem modifyBackup (h : Cut s live base i n) (f : Block w → Option (List UInt8)) :
    Cut (s.modifyBlock i fun b => { b with backup := f b }) live base i n := by
  have hlt := h.lt_size h.mem
  refine ⟨h.toTiled.modifyBackup h.mem f, h.mem, ?_, ?_, ?_⟩
  · rw [block_eq, slot_modifyBlock_self hlt]
    exact h.free
  · rw [block_eq, slot_modifyBlock_self hlt]
    exact h.size
  · have hlt' : i < (s.modifyBlock i fun b => { b with backup := f b }).slots.size := by
      rw [size_modifyBlock]
      exact hlt
    refine h.coalesced.congr ?_
    intro j _
    by_cases hji : j = i
    · subst hji
      rw [block_eq, slot_handOut_self hlt', block_eq (s.handOut j), slot_handOut_self hlt]
    · rw [block_eq, slot_handOut_other hlt' hji, slot_modifyBlock_other hlt hji,
        block_eq (s.handOut i), slot_handOut_other hlt hji]

/-- Handing out the block keeps the window tiled, with one handle more. -/
theorem handOut (h : Cut s live base i n) :
    Opened (s.handOut i) (live ++ [(s.handOut i).handle i]) base ∧
      (s.handOut i).Coalesced (s.handOut i).order ∧ ((s.handOut i).block i).size = n := by
  refine ⟨⟨h.toTiled.handOut h.mem h.free, ?_⟩, h.coalesced, ?_⟩
  · exact List.ne_nil_of_mem h.mem
  · rw [block_eq, slot_handOut_self (h.lt_size h.mem)]
    exact h.size

end Cut

/-! ## Giving back -/

/-- Giving back a block keeps the window tiled, with one handle less. -/
theorem Opened.release (h : Opened s live base) (hi : i ∈ s.order)
    (hf : (s.block i).free = false) :
    Opened (s.release i) (without live (s.handle i).id) base :=
  ⟨h.toTiled.release hi hf, h.nonempty⟩

/-- Joining neighbours keeps it tiled, and leaves no two free blocks side by side. -/
theorem Tiled.merge (h : Tiled s s.order live base) (hne : s.order ≠ []) :
    Opened s.merge live base ∧ s.merge.Coalesced s.merge.order :=
  ⟨⟨merge_tiled h, merge_opened hne⟩, merge_coalesced h.toSlotted⟩

end DebugLink.Areas
