import DebugLink.Proofs.Area.Shown

/-!
# Twins

Two arenas with the same configuration that show the same are `Twins`, whatever their slots look
like.  Each change of the tiling that is made to both, in slots that face each other, LEAVES TWINS.

* `Firm` is what keeps slots from showing through later.  A block that is handed out is not empty,
  so its address tells it from all others; and unless contents are to be saved, none are, so none
  come to light when a block is handed out again.
* `Chosen` is half way through a request: two slots that face each other have been cut to size.
-/

namespace DebugLink

variable {w : Nat}

/-- What a block has to be like that may be handed out some day. -/
structure Block.Firm (saves : Bool) (b : Block w) : Prop where
  positive : b.free = false → 0 < b.size
  bare : saves = false → b.backup = none

namespace Areas

section Firm

variable {s s' : Areas w} {order p q : List Nat} {i n : Nat}

/-- The discipline of the slots, and of their blocks. -/
structure Firm (s : Areas w) (order : List Nat) : Prop extends Slotted s order where
  blocks : ∀ i ∈ order, (s.block i).Firm s.config.backup

namespace Firm

/-- Without blocks there is nothing that could give way. -/
theorem of_nil (h : Slotted s []) : Firm s [] :=
  ⟨h, fun _ hi => absurd hi List.not_mem_nil⟩

/-- How the order is kept does not matter. -/
theorem withOrder (h : Firm s order) (o : List Nat) : Firm { s with order := o } order :=
  ⟨h.toSlotted.withOrder o, h.blocks⟩

/-- One slot has changed. -/
theorem change (h : Firm s order) (hs : Slotted s' order) (hconfig : s'.config = s.config)
    (hself : i ∈ order → (s'.block i).Firm s.config.backup)
    (hother : ∀ j, j ≠ i → s'.slot j = s.slot j) : Firm s' order := by
  refine ⟨hs, ?_⟩
  intro j hj
  rw [hconfig]
  by_cases hji : j = i
  · subst hji
    exact hself hj
  · rw [block_eq, hother j hji, ← block_eq]
    exact h.blocks j hj

/-- A backup may be made where backups are made. -/
theorem modifyBackup (h : Firm s order) (hi : i ∈ order) (hb : s.config.backup = true)
    (f : Block w → Option (List UInt8)) :
    Firm (s.modifyBlock i fun b => { b with backup := f b }) order := by
  have hlt := h.lt_size hi
  refine h.change (h.toSlotted.modifyBlock hi _) rfl ?_ fun j hj => slot_modifyBlock_other hlt hj
  intro _
  rw [block_eq, slot_modifyBlock_self hlt, hb]
  exact ⟨(h.blocks i hi).positive, nofun⟩

/-- A block of some size may be handed out. -/
theorem handOut (h : Firm s order) (hi : i ∈ order) (hpos : 0 < (s.block i).size) :
    Firm (s.handOut i) order := by
  have hlt := h.lt_size hi
  refine h.change (h.toSlotted.modifyBlock hi _) rfl ?_ fun j hj => slot_handOut_other hlt hj
  intro _
  rw [block_eq, slot_handOut_self hlt]
  exact ⟨fun _ => hpos, (h.blocks i hi).bare⟩

/-- A block may be given back. -/
theorem release (h : Firm s order) (hi : i ∈ order) : Firm (s.release i) order := by
  have hlt := h.lt_size hi
  refine h.change (h.toSlotted.release hi) rfl ?_ fun j hj => slot_release_other hlt hj
  intro _
  rw [block_eq, slot_release_self hlt]
  exact ⟨nofun, (h.blocks i hi).bare⟩

/-- A free block may take in the next. -/
theorem absorb {a b : Nat} (h : Firm s (p ++ a :: b :: q)) (ha : (s.block a).free = true) :
    Firm (s.absorb a b) (p ++ a :: q) := by
  obtain ⟨hs, hself, hother⟩ := absorb_spec h.toSlotted
  refine ⟨hs, ?_⟩
  intro j hj
  have hconfig : (s.absorb a b).config = s.config := rfl
  rw [hconfig]
  rcases mem_middle.mp hj with rfl | hj
  · rw [hself]
    refine ⟨fun hf => absurd (ha.symm.trans hf) (by simp), fun _ => rfl⟩
  · have hja : j ≠ a := hs.ne_of_mem hj
    have hmem : j ∈ (p ++ [a]) ++ q := by
      rw [List.append_assoc]
      exact mem_middle.mpr (Or.inr hj)
    have hjb : j ≠ b := h.toSlotted.second.ne_of_mem hmem
    rw [block_eq, hother j hja hjb, ← block_eq]
    exact h.blocks j (mem_middle.mpr (Or.inr (mem_middle.mpr (Or.inr hj))))

/-- Neighbours may be joined. -/
theorem merge (h : Firm s s.order) : Firm s.merge s.merge.order :=
  merge_induction (P := fun s o => Firm s o) (fun _ _ _ _ _ h ha _ => h.absorb ha)
    (fun _ _ o' h => h.withOrder o') h

end Firm

/-- What is left over of a block that is cut to `n` bytes, as it shows. -/
def leftOver (n : Nat) (b : Block w) : List (Block w) :=
  if b.size ≤ n then []
  else [{ address := offset b.address n, size := b.size - n, free := true }]

/-- Cutting a free block, as it shows. -/
theorem split_shown (h : Firm s (p ++ i :: q)) (ho : s.order = p ++ i :: q)
    (hf : (s.block i).free = true) (hn : n ≤ (s.block i).size) :
    ∃ r, (s.split i n).order = p ++ i :: r ∧ Firm (s.split i n) (p ++ i :: r) ∧
      p.map (s.split i n).face = p.map s.face ∧
      (s.split i n).face i = { s.face i with size := n } ∧
      r.map (s.split i n).face = leftOver n (s.face i) ++ q.map s.face := by
  have hleft : leftOver n (s.face i) = leftOver n (s.block i) := by
    rw [leftOver, face, Block.shown_size, Block.shown_address]
    rfl
  rw [hleft, leftOver]
  rcases Nat.lt_or_eq_of_le hn with hlt | rfl
  · -- the rest gets a slot of its own, which shows what is left over
    obtain ⟨new, horder, hfresh, hslotted, hself, hnew, hother, -, hconfig⟩ :=
      split_spec h.toSlotted ho hlt
    refine ⟨new :: q, horder, ⟨hslotted, ?_⟩, ?_, ?_, ?_⟩
    · intro j hj
      rw [hconfig]
      rcases mem_middle.mp hj with rfl | hj
      · rw [block_eq, hself]
        exact ⟨fun hlive => absurd (hf.symm.trans hlive) (by simp), fun _ => rfl⟩
      · rcases mem_middle.mp hj with rfl | hj
        · rw [hnew]
          exact ⟨fun hlive => absurd hlive (by simp), fun _ => rfl⟩
        · rw [block_eq, hother j hj, ← block_eq]
          exact h.blocks j (mem_middle.mpr (Or.inr hj))
    · exact map_face fun j hj => hother j (List.mem_append_left q hj)
    · rw [face, block_eq, hself, Block.shown_bare rfl, face, Block.shown_free hf]
    · rw [if_neg (Nat.not_le_of_lt hlt), List.map_cons, face, hnew, Block.shown_bare rfl,
        map_face fun j hj => hother j (List.mem_append_right p hj)]
      rfl
  · have hsame : s.split i (s.block i).size = s := if_pos (Nat.le_refl _)
    rw [hsame]
    refine ⟨q, ho, h, rfl, ?_, ?_⟩
    · rw [face, Block.shown_free hf]
    · rw [if_pos (Nat.le_refl _)]
      rfl

/-- Opening the window, as it shows. -/
theorem openAt_shown (base : BitVec w) (h : Slotted s s.order) (ho : s.order = []) :
    ∃ new, (s.openAt base).order = [new] ∧ Firm (s.openAt base) [new] ∧
      (s.openAt base).block new = { address := base, size := s.config.usable, free := true } := by
  rw [ho] at h
  obtain ⟨-, hblock, -, hslotted⟩ :=
    insert_spec h { address := base, size := s.config.usable, free := true }
  have horder : (s.openAt base).order = [(s.insert
      { address := base, size := s.config.usable, free := true }).1] := by
    show (s.insert _).2.order ++ _ = _
    rw [insert_order, ho]
    rfl
  refine ⟨_, horder, ⟨hslotted.withOrder _, ?_⟩, hblock⟩
  intro j hj
  obtain rfl := List.mem_singleton.mp hj
  show Block.Firm _ ((s.insert _).2.block _)
  rw [hblock]
  exact ⟨nofun, fun _ => rfl⟩

end Firm

/-! ## Twins -/

/-- Two arenas with the same configuration that show the same. -/
structure Twins (s t : Areas w) : Prop where
  config : s.config = t.config
  shown : s.shown = t.shown
  left : Firm s s.order
  right : Firm t t.order

/-- Two free slots of twins that face each other, cut to `n` bytes. -/
structure Chosen (s t : Areas w) (i j n : Nat) : Prop extends Twins s t where
  facing : Facing s t i j
  free : (s.block i).free = true
  size : (s.block i).size = n
  pos : 0 < n

section Steps

variable {s t : Areas w} {i j n : Nat}

namespace Twins

/-- Twins are both open, or both closed. -/
theorem opened (h : Twins s t) : s.opened = t.opened :=
  opened_shown h.shown

/-- They have the same amount to offer. -/
theorem available (h : Twins s t) : s.available = t.available :=
  available_shown h.config h.shown

/-- They are opened alike. -/
theorem openAt (h : Twins s t) (base : BitVec w) (ho : s.opened = false) :
    Twins (s.openAt base) (t.openAt base) := by
  have hnil : ∀ {s : Areas w}, s.opened = false → s.order = [] := by
    intro s ho
    exact List.isEmpty_iff.mp (by simpa [Areas.opened] using ho)
  obtain ⟨a, hao, hfirm, ha⟩ := openAt_shown base h.left.toSlotted (hnil ho)
  obtain ⟨b, hbo, hfirm', hb⟩ := openAt_shown base h.right.toSlotted (hnil (h.opened ▸ ho))
  refine ⟨?_, ?_, hao ▸ hfirm, hbo ▸ hfirm'⟩
  · rw [openAt_config, openAt_config, h.config]
  · rw [shown_eq, shown_eq, hao, hbo, List.map_singleton, List.map_singleton, face, face, ha, hb,
      h.config]

/-- The slot that serves a request, and the one that faces it. -/
theorem firstFit (h : Twins s t) (hi : s.firstFit? n = some i) :
    ∃ j, t.firstFit? n = some j ∧ Facing s t i j := by
  have hfits : ∀ (s : Areas w) (i : Nat), ((s.block i).free && decide (n ≤ (s.block i).size)) =
      ((s.face i).free && decide (n ≤ (s.face i).size)) := by
    intro s i
    rw [face, Block.free_shown, Block.shown_size]
  obtain ⟨hfit, p, q, ho, hp⟩ := List.find?_eq_some_iff_append.mp hi
  obtain ⟨p', j, q', ho', hpp, hij, hqq⟩ := Facing.of_append h.shown ho
  refine ⟨j, List.find?_eq_some_iff_append.mpr ⟨?_, p', q', ho', ?_⟩,
    p, q, p', q', ho, ho', hpp, hij, hqq⟩
  · rw [hfits, ← hij, ← hfits]
    exact hfit
  · intro k hk
    have hmem : t.face k ∈ p.map s.face := hpp ▸ List.mem_map_of_mem hk
    obtain ⟨l, hl, hlk⟩ := List.mem_map.mp hmem
    rw [hfits, ← hlk, ← hfits]
    exact hp l hl

/-- Neither of them is the first. -/
theorem symm (h : Twins s t) : Twins t s :=
  ⟨h.config.symm, h.shown.symm, h.right, h.left⟩

/-- Where one has no room, the other has none. -/
theorem firstFit_none (h : Twins s t) (hi : s.firstFit? n = none) : t.firstFit? n = none := by
  cases hj : t.firstFit? n with
  | none => rfl
  | some j =>
      obtain ⟨i, hsome, _⟩ := h.symm.firstFit hj
      rw [hi] at hsome
      exact absurd hsome (by simp)

/-- A block is cut to size. -/
theorem split (h : Twins s t) (hf : Facing s t i j) (hfree : (s.block i).free = true)
    (hpos : 0 < n) (hn : n ≤ (s.block i).size) : Chosen (s.split i n) (t.split j n) i j n := by
  have hface := hf.face
  have hsize := hf.size
  have hfree' := hf.free
  obtain ⟨p, q, p', q', ho, ho', hp, _, hq⟩ := hf
  obtain ⟨r, hro, hfirm, hsp, hsi, hsr⟩ := split_shown (ho ▸ h.left) ho hfree hn
  obtain ⟨r', hro', hfirm', htp, htj, htr⟩ :=
    split_shown (ho' ▸ h.right) ho' (hfree' ▸ hfree) (hsize ▸ hn)
  have hfacing : Facing (s.split i n) (t.split j n) i j := by
    refine ⟨p, r, p', r', hro, hro', ?_, ?_, ?_⟩
    · rw [hsp, htp, hp]
    · rw [hsi, htj, hface]
    · rw [hsr, htr, hface, hq]
  refine ⟨⟨?_, hfacing.shown, hro ▸ hfirm, hro' ▸ hfirm'⟩, hfacing, ?_, ?_, hpos⟩
  · rw [split_config, split_config, h.config]
  · rw [← Block.free_shown]
    refine (congrArg Block.free hsi).trans ?_
    exact (Block.free_shown _).trans hfree
  · rw [← Block.shown_size]
    exact congrArg Block.size hsi

/-- A block is given back. -/
theorem release (h : Twins s t) (hf : Facing s t i j) :
    Twins (s.release i) (t.release j) ∧ Facing (s.release i) (t.release j) i j := by
  have hi := h.left.lt_size hf.left
  have hj := h.right.lt_size hf.right
  have hfacing : Facing (s.release i) (t.release j) i j := by
    refine hf.change h.left.toSlotted h.right.toSlotted rfl rfl
      (fun k hk => slot_release_other hi hk) (fun k hk => slot_release_other hj hk) ?_
    rw [face, face, block_eq, block_eq, slot_release_self hi, slot_release_self hj]
    show Block.shown { s.block i with free := true } = Block.shown { t.block j with free := true }
    rw [Block.shown_free rfl, Block.shown_free rfl, hf.address, hf.size]
  exact ⟨⟨h.config, hfacing.shown, h.left.release hf.left, h.right.release hf.right⟩, hfacing⟩

/-- Neighbours are joined. -/
theorem merge (h : Twins s t) : Twins s.merge t.merge where
  config := by rw [merge_config, merge_config, h.config]
  shown := by rw [shown_merge h.left.toSlotted, shown_merge h.right.toSlotted, h.shown]
  left := h.left.merge
  right := h.right.merge

/-- The window is closed. -/
theorem discard (h : Twins s t) : Twins s.discard t.discard where
  config := by rw [discard_config, discard_config, h.config]
  shown := rfl
  left := .of_nil (discard_slotted h.left.toSlotted)
  right := .of_nil (discard_slotted h.right.toSlotted)

/-- Another configuration makes both what they were at the start. -/
theorem setConfig (h : Twins s t) (c : AreaConfig w) : Twins (s.setConfig c) (t.setConfig c) where
  config := rfl
  shown := rfl
  left := .of_nil (closed_setConfig h.left.toSlotted c).slotted
  right := .of_nil (closed_setConfig h.right.toSlotted c).slotted

end Twins

namespace Chosen

/-- Something is saved for both, or forgotten. -/
theorem modifyBackup (h : Chosen s t i j n) (hb : s.config.backup = true)
    (f : Block w → Option (List UInt8)) :
    Chosen (s.modifyBlock i fun b => { b with backup := f b })
      (t.modifyBlock j fun b => { b with backup := f b }) i j n := by
  have hi := h.left.lt_size h.facing.left
  have hj := h.right.lt_size h.facing.right
  have hfree : (t.block j).free = true := h.facing.free ▸ h.free
  have hfacing : Facing (s.modifyBlock i fun b => { b with backup := f b })
      (t.modifyBlock j fun b => { b with backup := f b }) i j := by
    refine h.facing.change h.left.toSlotted h.right.toSlotted rfl rfl
      (fun k hk => slot_modifyBlock_other hi hk) (fun k hk => slot_modifyBlock_other hj hk) ?_
    rw [face, face, block_eq, block_eq, slot_modifyBlock_self hi, slot_modifyBlock_self hj]
    exact (Block.shown_backup h.free _).trans
      (h.facing.face.trans (Block.shown_backup hfree _).symm)
  refine ⟨⟨h.config, hfacing.shown, h.left.modifyBackup h.facing.left hb f,
    h.right.modifyBackup h.facing.right (h.config ▸ hb) f⟩, hfacing, ?_, ?_, h.pos⟩
  · rw [block_eq, slot_modifyBlock_self hi]
    exact h.free
  · rw [block_eq, slot_modifyBlock_self hi]
    exact h.size

/-- Both are handed out; what was saved for them shows from now on. -/
theorem handOut (h : Chosen s t i j n) (hsaved : (s.block i).backup = (t.block j).backup) :
    Twins (s.handOut i) (t.handOut j) ∧ Facing (s.handOut i) (t.handOut j) i j := by
  have hi := h.left.lt_size h.facing.left
  have hj := h.right.lt_size h.facing.right
  have hblock : s.block i = t.block j := Block.eq_of_shown h.facing.face fun _ => hsaved
  have hpos : 0 < (s.block i).size := h.size.symm ▸ h.pos
  have hfacing : Facing (s.handOut i) (t.handOut j) i j := by
    refine h.facing.change h.left.toSlotted h.right.toSlotted rfl rfl
      (fun k hk => slot_handOut_other hi hk) (fun k hk => slot_handOut_other hj hk) ?_
    rw [face, face, block_eq, block_eq, slot_handOut_self hi, slot_handOut_self hj, hblock]
  exact ⟨⟨h.config, hfacing.shown, h.left.handOut h.facing.left hpos,
    h.right.handOut h.facing.right (hblock ▸ hpos)⟩, hfacing⟩

end Chosen

end Steps

end Areas

end DebugLink
