import DebugLink.Proofs.Area.Phases

/-!
# What an arena shows

Two arenas can hold the same blocks, but in which slots, with which generations, and what is left of
old savings in a free block, depends on how they came about.  `shown` leaves out all of that: the
blocks by ascending address, and of a free block only where it lies.

* What is read off an arena is read off WHAT IT SHOWS (`opened_shown`, `available_shown`).
* Joining neighbours is a function of the row of blocks (`layout_merge`, with `joined`), and what it
  shows one of what was shown (`shown_merge`); blocks that are not free come out of it as they were
  (`mem_joined`).
* Changes around one slot are dealt with by `Facing`: two slots of two arenas, in the same place of
  what these show.
-/

namespace DebugLink

variable {w : Nat}

/-- A block as it shows: of a free one it does not show whether something is saved for it. -/
def Block.shown (b : Block w) : Block w :=
  if b.free then { b with backup := none } else b

namespace Block

variable {b c : Block w}

/-- A block in use shows everything. -/
theorem shown_live (h : b.free = false) : b.shown = b := by
  rw [shown, h, if_neg Bool.false_ne_true]

/-- A free block does not show what it keeps from before. -/
theorem shown_free (h : b.free = true) : b.shown = { b with backup := none } :=
  if_pos h

/-- What is saved for a free block does not show. -/
theorem shown_backup (h : b.free = true) (saved : Option (List UInt8)) :
    Block.shown { b with backup := saved } = b.shown := by
  rw [shown_free h]
  exact shown_free h

/-- A block that keeps nothing shows everything. -/
theorem shown_bare (h : b.backup = none) : b.shown = b := by
  rw [shown, ← h, ite_self]

/-- Every block shows its address, ... -/
@[simp] theorem shown_address (b : Block w) : b.shown.address = b.address := by
  rw [shown]
  split <;> rfl

/-- ... its size, ... -/
@[simp] theorem shown_size (b : Block w) : b.shown.size = b.size := by
  rw [shown]
  split <;> rfl

/-- ... and whether it is free. -/
@[simp] theorem free_shown (b : Block w) : b.shown.free = b.free := by
  rw [shown]
  split <;> rfl

/-- Only what is saved for a free block does not show. -/
theorem eq_of_shown (h : b.shown = c.shown) (hb : b.free = true → b.backup = c.backup) :
    b = c := by
  have hfree : b.free = c.free := by rw [← free_shown b, h, free_shown]
  cases hf : b.free with
  | false => rwa [shown_live hf, shown_live (hfree.symm.trans hf)] at h
  | true =>
      have haddress : b.address = c.address := by rw [← shown_address b, h, shown_address]
      have hsize : b.size = c.size := by rw [← shown_size b, h, shown_size]
      have hbackup := hb hf
      cases b
      cases c
      simp_all

end Block

/-! ## Joining -/

/-- Joins a block with the free ones behind it, and so on to the end. -/
def joinFrom (a : Block w) : List (Block w) → List (Block w)
  | [] => [a]
  | b :: rest =>
    if a.free && b.free then
      joinFrom { a with size := a.size + b.size, backup := none } rest
    else a :: joinFrom b rest

/-- Joins neighbouring free blocks. -/
def joined : List (Block w) → List (Block w)
  | [] => []
  | a :: rest => joinFrom a rest

/-- What joined blocks show is what they show, joined. -/
theorem map_shown_joinFrom (rest : List (Block w)) : ∀ a,
    (joinFrom a rest).map Block.shown = joinFrom a.shown (rest.map Block.shown) := by
  induction rest with
  | nil => exact fun _ => rfl
  | cons b rest ih =>
      intro a
      have hfree : (a.shown.free && b.shown.free) = (a.free && b.free) := by
        rw [Block.free_shown, Block.free_shown]
      rw [joinFrom, List.map_cons, joinFrom, hfree]
      split
      · have hgrown : Block.shown { a with size := a.size + b.size, backup := none } =
            { a.shown with size := a.shown.size + b.shown.size, backup := none } := by
          rw [Block.shown_bare rfl, Block.shown_size, Block.shown_size, Block.shown]
          split <;> rfl
        rw [ih, hgrown]
      · rw [List.map_cons, ih]

/-- What shows of the joined blocks depends on what showed of the blocks. -/
theorem map_shown_joined (l : List (Block w)) :
    (joined l).map Block.shown = joined (l.map Block.shown) := by
  cases l with
  | nil => rfl
  | cons a rest => exact map_shown_joinFrom rest a

/-- Blocks in use are neither joined nor made. -/
theorem mem_joinFrom {b : Block w} (hb : b.free = false) (rest : List (Block w)) :
    ∀ a, b ∈ joinFrom a rest ↔ b ∈ a :: rest := by
  induction rest with
  | nil => exact fun _ => Iff.rfl
  | cons c rest ih =>
      intro a
      rw [joinFrom]
      split
      · next hfree =>
        obtain ⟨ha, hc⟩ := Bool.and_eq_true_iff.mp hfree
        have hskip : ∀ (x : Block w) (l : List (Block w)), x.free = true →
            (b ∈ x :: l ↔ b ∈ l) := by
          rintro x l hx
          refine List.mem_cons.trans (or_iff_right ?_)
          rintro rfl
          rw [hx] at hb
          exact absurd hb (by simp)
        have hgrown := hskip { a with size := a.size + c.size, backup := none } rest ha
        exact (ih _).trans (hgrown.trans ((hskip a _ ha).trans (hskip c rest hc)).symm)
      · rw [List.mem_cons, ih, ← List.mem_cons]

/-- Blocks that are not free are left alone. -/
theorem mem_joined {b : Block w} (hb : b.free = false) (l : List (Block w)) :
    b ∈ joined l ↔ b ∈ l := by
  cases l with
  | nil => exact Iff.rfl
  | cons a rest => exact mem_joinFrom hb rest a

/-- A block that was made by joining is free and keeps nothing. -/
theorem mem_of_joinFrom {b : Block w} (rest : List (Block w)) : ∀ a, b ∈ joinFrom a rest →
    b ∈ a :: rest ∨ b.free = true ∧ b.backup = none := by
  induction rest with
  | nil => exact fun _ hb => Or.inl hb
  | cons c rest ih =>
      intro a hb
      rw [joinFrom] at hb
      split at hb
      · next hfree =>
        rcases ih _ hb with hb | hbare
        · rcases List.mem_cons.mp hb with rfl | hb
          · exact Or.inr ⟨(Bool.and_eq_true_iff.mp hfree).1, rfl⟩
          · exact Or.inl (List.mem_cons_of_mem a (List.mem_cons_of_mem c hb))
        · exact Or.inr hbare
      · rcases List.mem_cons.mp hb with rfl | hb
        · exact Or.inl List.mem_cons_self
        · exact (ih c hb).imp_left (List.mem_cons_of_mem a)

/-- What is joined anew is free, and nothing is saved for it. -/
theorem mem_of_joined {b : Block w} {l : List (Block w)} (hb : b ∈ joined l) :
    b ∈ l ∨ b.free = true ∧ b.backup = none := by
  cases l with
  | nil => exact Or.inl hb
  | cons a rest => exact mem_of_joinFrom rest a hb

/-- The first block keeps its address. -/
theorem head_joinFrom (rest : List (Block w)) :
    ∀ a, (joinFrom a rest).head?.map (·.address) = some a.address := by
  induction rest with
  | nil => exact fun _ => rfl
  | cons b rest ih =>
      intro a
      rw [joinFrom]
      split
      · exact ih _
      · rfl

/-- The window begins where it began. -/
theorem head_joined (l : List (Block w)) :
    (joined l).head?.map (·.address) = l.head?.map (·.address) := by
  cases l with
  | nil => rfl
  | cons a rest => exact head_joinFrom rest a

namespace Areas

variable {s s' t t' : Areas w} {order p q : List Nat} {i j : Nat}

/-- The blocks by ascending address, as they show. -/
def shown (s : Areas w) : List (Block w) :=
  s.layout.map Block.shown

/-- The block in slot `i`, as it shows. -/
def face (s : Areas w) (i : Nat) : Block w :=
  (s.block i).shown

/-- What an arena shows is read off slot by slot. -/
theorem shown_eq (s : Areas w) : s.shown = s.order.map s.face := by
  rw [shown, layout, List.map_map]
  rfl

/-- A slot that was left alone shows what it showed. -/
theorem face_congr (h : s'.slot i = s.slot i) : s'.face i = s.face i := by
  rw [face, face, block_eq, h, block_eq]

/-- Slots that are as before show what they showed. -/
theorem map_face (h : ∀ j ∈ order, s'.slot j = s.slot j) : order.map s'.face = order.map s.face :=
  List.map_congr_left fun j hj => face_congr (h j hj)

/-- Blocks that are not free show all there is. -/
theorem mem_shown {b : Block w} (hb : b.free = false) : b ∈ s.shown ↔ b ∈ s.layout := by
  constructor
  · intro h
    obtain ⟨c, hc, rfl⟩ := List.mem_map.mp h
    rwa [Block.shown_live (c.free_shown.symm.trans hb)]
  · intro h
    exact List.mem_map.mpr ⟨b, h, Block.shown_live hb⟩

/-! ## Reading -/

/-- The window begins where it shows that it does. -/
theorem head_shown (s : Areas w) :
    s.shown.head?.map (·.address) = s.layout.head?.map (·.address) := by
  rw [shown, List.head?_map, Option.map_map]
  exact congrArg (Option.map · s.layout.head?) (funext Block.shown_address)

/-- Whether the window is open shows. -/
theorem opened_shown (h : s.shown = t.shown) : s.opened = t.opened := by
  have hempty : ∀ s : Areas w, s.order.isEmpty = s.shown.isEmpty := by
    intro s
    rw [shown_eq, List.isEmpty_map]
  rw [opened, opened, hempty, hempty, h]

/-- How much is available shows. -/
theorem available_shown (hc : s.config = t.config) (h : s.shown = t.shown) :
    s.available = t.available := by
  have hsizes : ∀ s : Areas w, (s.layout.filter (·.free)).map (·.size) =
      (s.shown.filter (·.free)).map (·.size) := by
    intro s
    rw [shown, List.filter_map, List.map_map]
    refine (List.map_congr_left fun b _ => b.shown_size.symm).trans ?_
    refine congrArg (List.map _) (List.filter_congr fun b _ => ?_)
    exact b.free_shown.symm
  rw [available, available, hsizes, hsizes, opened_shown h, hc, h]

/-! ## Joining slots -/

/-- Joining slots joins their blocks. -/
theorem layout_mergeFrom (rest : List Nat) : ∀ (p : List Nat) (s : Areas w) (i : Nat),
    Slotted s (p ++ i :: rest) → (s.mergeFrom i rest).1.map (s.mergeFrom i rest).2.block =
      joinFrom (s.block i) (rest.map s.block) := by
  induction rest with
  | nil => exact fun _ _ _ _ => rfl
  | cons j rest ih =>
      intro p s i h
      rw [mergeFrom, List.map_cons, joinFrom]
      split
      · obtain ⟨hs, hself, hother⟩ := absorb_spec h
        have hrest : rest.map (s.absorb i j).block = rest.map s.block := by
          refine List.map_congr_left fun k hk => congrArg Slot.block (hother k ?_ ?_)
          · exact h.ne_of_mem (List.mem_append_right p (List.mem_cons_of_mem j hk))
          · exact h.second.ne_of_mem (List.mem_append_right _ hk)
        rw [ih p (s.absorb i j) i hs, hself, hrest]
      · have hkeep := (mergeFrom_coalesced rest (p ++ [i]) s j h.second).2.2 i
          (List.mem_append_right p List.mem_cons_self)
        exact congr (congrArg List.cons (congrArg Slot.block hkeep)) (ih (p ++ [i]) s j h.second)

/-- Joining slots joins their blocks. -/
theorem layout_merge (h : Slotted s s.order) : s.merge.layout = joined s.layout := by
  rw [layout, layout, merge]
  cases ho : s.order with
  | nil =>
      show s.order.map s.block = _
      rw [ho]
      rfl
  | cons i rest =>
      rw [ho] at h
      exact layout_mergeFrom rest [] s i h

/-- What shows after joining depends on what showed before. -/
theorem shown_merge (h : Slotted s s.order) : s.merge.shown = joined s.shown := by
  rw [shown, layout_merge h, map_shown_joined, shown]

/-! ## The same place in two arenas -/

/-- As many slots from the left show the same, and so do the others. -/
theorem shown_append (h : s.shown = t.shown) {p' q' : List Nat} (ho : s.order = p ++ q)
    (ho' : t.order = p' ++ q') (hlen : p.length = p'.length) :
    p.map s.face = p'.map t.face ∧ q.map s.face = q'.map t.face := by
  rw [shown_eq, shown_eq, ho, ho', List.map_append, List.map_append] at h
  exact List.append_inj h (by rw [List.length_map, List.length_map, hlen])

/-- Slot `i` of the one and slot `j` of the other are in the same place of what they show. -/
def Facing (s t : Areas w) (i j : Nat) : Prop :=
  ∃ p q p' q', s.order = p ++ i :: q ∧ t.order = p' ++ j :: q' ∧
    p.map s.face = p'.map t.face ∧ s.face i = t.face j ∧ q.map s.face = q'.map t.face

/-- Where the slot lies that a slot faces. -/
theorem Facing.of_append (h : s.shown = t.shown) (ho : s.order = p ++ i :: q) :
    ∃ p' j q', t.order = p' ++ j :: q' ∧ p.map s.face = p'.map t.face ∧ s.face i = t.face j ∧
      q.map s.face = q'.map t.face := by
  rw [shown_eq, shown_eq, ho, List.map_append, List.map_cons] at h
  obtain ⟨p', r, hto, hp, hr⟩ := List.map_eq_append_iff.mp h.symm
  obtain ⟨j, q', rfl, hj, hq⟩ := List.map_eq_cons_iff.mp hr
  exact ⟨p', j, q', hto, hp.symm, hj.symm, hq.symm⟩

namespace Facing

/-- Each slot faces one. -/
theorem of_mem (h : s.shown = t.shown) (hi : i ∈ s.order) : ∃ j, Facing s t i j := by
  obtain ⟨p, q, ho⟩ := List.append_of_mem hi
  obtain ⟨p', j, q', ho', hp, hij, hq⟩ := of_append h ho
  exact ⟨j, p, q, p', q', ho, ho', hp, hij, hq⟩

theorem left (h : Facing s t i j) : i ∈ s.order := by
  obtain ⟨p, q, _, _, ho, _⟩ := h
  rw [ho]
  exact List.mem_append_right p List.mem_cons_self

theorem right (h : Facing s t i j) : j ∈ t.order := by
  obtain ⟨_, _, p', q', _, ho, _⟩ := h
  rw [ho]
  exact List.mem_append_right p' List.mem_cons_self

/-- Slots that face each other show the same. -/
theorem face (h : Facing s t i j) : s.face i = t.face j := by
  obtain ⟨_, _, _, _, _, _, _, hself, _⟩ := h
  exact hself

/-- Each slot faces itself. -/
theorem refl (hi : i ∈ s.order) : Facing s s i i := by
  obtain ⟨p, q, ho⟩ := List.append_of_mem hi
  exact ⟨p, q, p, q, ho, ho, rfl, rfl, rfl⟩

/-- Slots face each other in arenas that show the same. -/
theorem shown (h : Facing s t i j) : s.shown = t.shown := by
  obtain ⟨p, q, p', q', hso, hto, hp, hself, hq⟩ := h
  rw [shown_eq, shown_eq, hso, hto, List.map_append, List.map_append, List.map_cons,
    List.map_cons, hp, hself, hq]

/-- Their blocks begin at the same address, ... -/
theorem address (h : Facing s t i j) : (s.block i).address = (t.block j).address := by
  rw [← Block.shown_address, ← Block.shown_address (t.block j)]
  exact congrArg Block.address h.face

/-- ... have the same size, ... -/
theorem size (h : Facing s t i j) : (s.block i).size = (t.block j).size := by
  rw [← Block.shown_size, ← Block.shown_size (t.block j)]
  exact congrArg Block.size h.face

/-- ... and are both free, or both in use. -/
theorem free (h : Facing s t i j) : (s.block i).free = (t.block j).free := by
  rw [← Block.free_shown, ← Block.free_shown (t.block j)]
  exact congrArg Block.free h.face

/-- The two slots have changed, and still show the same. -/
theorem change (h : Facing s t i j) (hs : Slotted s s.order) (ht : Slotted t t.order)
    (hso : s'.order = s.order) (hto : t'.order = t.order)
    (hsother : ∀ k, k ≠ i → s'.slot k = s.slot k) (htother : ∀ k, k ≠ j → t'.slot k = t.slot k)
    (hself : s'.face i = t'.face j) : Facing s' t' i j := by
  obtain ⟨p, q, p', q', ho, ho', hp, _, hq⟩ := h
  have hsame : ∀ {s s' : Areas w} {p q : List Nat} {i : Nat}, Slotted s (p ++ i :: q) →
      (∀ k, k ≠ i → s'.slot k = s.slot k) →
      p.map s'.face = p.map s.face ∧ q.map s'.face = q.map s.face := by
    intro s s' p q i hs hother
    refine ⟨map_face fun k hk => hother k ?_, map_face fun k hk => hother k ?_⟩
    · exact hs.ne_of_mem (List.mem_append_left q hk)
    · exact hs.ne_of_mem (List.mem_append_right p hk)
  obtain ⟨hsp, hsq⟩ := hsame (ho ▸ hs) hsother
  obtain ⟨htp, htq⟩ := hsame (ho' ▸ ht) htother
  refine ⟨p, q, p', q', hso.trans ho, hto.trans ho', ?_, hself, ?_⟩
  · rw [hsp, htp, hp]
  · rw [hsq, htq, hq]

end Facing

end Areas

end DebugLink
