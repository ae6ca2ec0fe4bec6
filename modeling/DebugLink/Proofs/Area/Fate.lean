import DebugLink.Proofs.Area.Reachable
import Mathlib.Data.UInt

/-!
# How handles end

A handle is lost in two ways: it is given back, or all blocks are given up.  Either way the slot
it was on has gone to another generation by the end of the task: that is what makes it stale.

* `Fate` is what can become of a slot that was handed out.  It is kept, freed, or gone, and the
  generation has gone up by NONE, ONE, or ONE OR TWO.
* `Since` says it of all slots that were handed out when a task began.  It is kept by giving
  blocks back, by joining neighbours and by giving slots up (`Since.release`, `Since.merge`,
  `Since.discard`), hence by all that `Releases` asks for (`since_releases`).
* `AreaTask.wp_perform` draws the conclusion for every task (`Turn`): what does not hold any
  longer has another generation now.
-/

namespace DebugLink

open Environment

/-! ## What becomes of a slot that was handed out -/

namespace Areas

variable {w : Nat} {s₀ s : Areas w} {i : Nat}

/-- What a slot that was handed out has come to. -/
inductive Fate (old new : Slot w) : Prop
  | kept (live : new.live = true) (free : new.block.free = false)
      (generation : new.generation = old.generation)
  | freed (live : new.live = true) (free : new.block.free = true)
      (generation : new.generation = old.generation + 1)
  | gone (live : new.live = false) (generation : new.generation = old.generation + 1 ∨
      new.generation = old.generation + 1 + 1)

/-- A handle is lost only together with the generation it was issued for. -/
theorem Fate.kept_or_raised {old new : Slot w} (h : Fate old new) :
    (new.live = true ∧ new.block.free = false ∧ new.generation = old.generation) ∨
      new.generation ≠ old.generation := by
  have htwo : old.generation + 1 + 1 ≠ old.generation := by
    rw [add_assoc]
    exact fun heq => absurd (add_eq_left.mp heq) (by decide)
  rcases h with ⟨hlive, hfree, hgen⟩ | ⟨_, _, hgen⟩ | ⟨_, hgen | hgen⟩
  · exact Or.inl ⟨hlive, hfree, hgen⟩
  · exact Or.inr (by simp [hgen])
  · exact Or.inr (by simp [hgen])
  · exact Or.inr (hgen ▸ htwo)

/-- Blocks were given back, and neighbours joined. -/
structure Since (s₀ s : Areas w) : Prop where
  id : s.id = s₀.id
  size : s₀.slots.size ≤ s.slots.size
  fate : ∀ i ∈ s₀.order, (s₀.block i).free = false → Fate (s₀.slot i) (s.slot i)

namespace Since

/-- Nothing has happened. -/
theorem refl (h : Slotted s s.order) : Since s s where
  id := rfl
  size := Nat.le_refl _
  fate := fun i hi hf => .kept ((h.mem_iff i).mp hi).2 hf rfl

/-- One slot has changed. -/
theorem change (h : Since s₀ s) {s' : Areas w} (hid : s'.id = s.id)
    (hsize : s'.slots.size = s.slots.size) (hother : ∀ j, j ≠ i → s'.slot j = s.slot j)
    (hself : ∀ old, Fate old (s.slot i) → Fate old (s'.slot i)) : Since s₀ s' where
  id := hid.trans h.id
  size := hsize ▸ h.size
  fate := by
    intro j hj hf
    have hfate := h.fate j hj hf
    by_cases hji : j = i
    · subst hji
      exact hself _ hfate
    · rw [hother j hji]
      exact hfate

/-- The order and the configuration play no part. -/
theorem withOrder (h : Since s₀ s) (order : List Nat) : Since s₀ { s with order } :=
  ⟨h.id, h.size, h.fate⟩

theorem withConfig (h : Since s₀ s) (config : AreaConfig w) : Since s₀ { s with config } :=
  ⟨h.id, h.size, h.fate⟩

/-- A block is given back. -/
theorem release (h : Since s₀ s) (hs : Slotted s s.order) (hi : i ∈ s.order)
    (hf : (s.block i).free = false) : Since s₀ (s.release i) := by
  obtain ⟨hlt, hlive⟩ := (hs.mem_iff i).mp hi
  refine h.change rfl (size_release s i) (fun j hj => slot_release_other hlt hj) ?_
  rw [slot_release_self hlt]
  rintro old (⟨_, _, hgen⟩ | ⟨_, hfree, _⟩ | ⟨hdead, _⟩)
  · exact .freed hlive rfl (congrArg (· + 1) hgen)
  · rw [block_eq, hfree] at hf
    exact absurd hf (by simp)
  · rw [hlive] at hdead
    exact absurd hdead (by simp)

/-- A slot is given up. -/
theorem vacate (h : Since s₀ s) {rest : List Nat} (hs : Slotted s (i :: rest)) :
    Since s₀ (s.vacate i) := by
  obtain ⟨hlt, hlive⟩ := (hs.mem_iff i).mp List.mem_cons_self
  refine h.change rfl (size_vacate s i) (fun j hj => slot_vacate_other hlt hj) ?_
  have hgen := generation_vacate_self hlt
  rintro old (⟨_, _, hold⟩ | ⟨_, _, hold⟩ | ⟨hdead, _⟩)
  · exact .gone (slot_vacate_self hlt) (Or.inl (by rw [hgen, hold]))
  · exact .gone (slot_vacate_self hlt) (Or.inr (by rw [hgen, hold]))
  · rw [hlive] at hdead
    exact absurd hdead (by simp)

/-- Two free neighbours are joined. -/
theorem absorb (h : Since s₀ s) {p q : List Nat} {a b : Nat}
    (hs : Slotted s (p ++ a :: b :: q)) : Since s₀ (s.absorb a b) := by
  obtain ⟨grown, hgrown⟩ : ∃ grown, grown = s.modifyBlock a fun x =>
      { x with size := x.size + (s.block b).size, backup := none } := ⟨_, rfl⟩
  have ha : a ∈ p ++ a :: b :: q := List.mem_append_right p List.mem_cons_self
  have hlt := hs.lt_size ha
  have hsince : Since s₀ grown := by
    subst hgrown
    refine h.change rfl (size_modifyBlock s a _) (fun j hj => slot_modifyBlock_other hlt hj) ?_
    rw [slot_modifyBlock_self hlt]
    rintro old (⟨hlive, hfree, hgen⟩ | ⟨hlive, hfree, hgen⟩ | ⟨hdead, hgen⟩)
    · exact .kept hlive hfree hgen
    · exact .freed hlive hfree hgen
    · exact .gone hdead hgen
  have hslotted : Slotted grown (b :: (p ++ a :: q)) := by
    subst hgrown
    exact ((hs.modifyBlock ha _).second.perm List.perm_middle).perm (by simp)
  have habsorb : s.absorb a b = grown.vacate b := by
    rw [hgrown]
    rfl
  rw [habsorb]
  exact hsince.vacate hslotted

/-- Joining raises the generation of each slot that it gives up. -/
theorem merge (h : Since s₀ s) (hs : Slotted s s.order) : Since s₀ s.merge := by
  refine (merge_induction (P := fun t o => Slotted t o ∧ Since s₀ t) ?_ ?_ ⟨hs, h⟩).2
  · rintro t p a b q ⟨ht, hsince⟩ _ _
    exact ⟨(absorb_spec ht).1, hsince.absorb ht⟩
  · rintro t o o' ⟨ht, hsince⟩
    exact ⟨ht.withOrder o', hsince.withOrder o'⟩

/-- So does closing the window. -/
theorem discard (h : Since s₀ s) (hs : Slotted s s.order) : Since s₀ s.discard := by
  have hall : ∀ (order : List Nat) (s : Areas w), Slotted s order → Since s₀ s →
      Since s₀ (order.foldl Areas.vacate s) := by
    intro order
    induction order with
    | nil =>
        intro s _ h
        exact h
    | cons i rest ih =>
        intro s hs h
        exact ih (s.vacate i) hs.vacate (h.vacate hs)
  exact (hall s.order s hs h).withOrder []

theorem setConfig (h : Since s₀ s) (hs : Slotted s s.order) (config : AreaConfig w) :
    Since s₀ (s.setConfig config) :=
  (h.discard hs).withConfig config

end Since

/-- How often the generation of a slot went up, as far as its two ends tell. It went up at least
    that often: a whole turn of the counter does not show. -/
def raised (s s' : Areas w) (i : Nat) : Nat :=
  ((s'.slot i).generation - (s.slot i).generation).toNat

/-- Another generation is a later one. -/
theorem raised_pos {s' : Areas w} (h : (s'.slot i).generation ≠ (s.slot i).generation) :
    0 < raised s s' i := by
  refine Nat.pos_of_ne_zero ?_
  intro hz
  exact h (sub_eq_zero.mp (UInt32.toNat_inj.mp hz))

/-- What a task does to areas and to the handles that held before it: those that hold no longer
    are outdated. -/
structure Turn (s s' : Areas w) (live live' : List (Area w)) : Prop where
  id : s'.id = s.id
  raised : ∀ a ∈ live, a ∉ live' → 0 < raised s s' a.id.index

/-- An arena that is not asked stays as it is. -/
theorem Turn.refl (s : Areas w) (live : List (Area w)) : Turn s s live live :=
  ⟨rfl, fun _ ha hn => absurd ha hn⟩

/-- Handles are only added. -/
theorem Turn.of_subset {s s' : Areas w} {live live' : List (Area w)} (hid : s'.id = s.id)
    (hsub : live ⊆ live') : Turn s s' live live' :=
  ⟨hid, fun _ ha hn => absurd (hsub ha) hn⟩

/-- Blocks were given back, and the handles on them are not among those that hold. -/
theorem Since.turn {s s' : Areas w} {live live' : List (Area w)} (h : Since s s')
    (hs : Standing s live) (hs' : Standing s' live')
    (hgone : ∀ a ∈ live, a ∉ live' → ∀ b ∈ live', b.id ≠ a.id) : Turn s s' live live' := by
  refine ⟨h.id, ?_⟩
  intro a ha hn
  obtain ⟨i, hi, hf, rfl⟩ := mem_handles.mp (hs.handles.mem_iff.mp ha)
  rcases (h.fate i hi hf).kept_or_raised with ⟨hlive, hfree, hgen⟩ | hne
  · have hlt : i < s'.slots.size := Nat.lt_of_lt_of_le (hs.slotted.lt_size hi) h.size
    have hi' : i ∈ s'.order := (hs'.slotted.mem_iff i).mpr ⟨hlt, hlive⟩
    have hmem := hs'.handles.mem_iff.mpr (mem_handles.mpr ⟨i, hi', hfree, rfl⟩)
    refine absurd ?_ (hgone _ ha hn _ hmem)
    simp only [handle, hgen, h.id]
  · exact raised_pos hne

/-! ## What operations do to the slots -/

section Operations

variable {A : Arch} {s : Areas A.width} {live : List (Area A.width)} {mmu : Bool}

/-- What is known between operations, and whose areas these are. -/
def Owned (n : Nat) (s : Areas A.width) (live : List (Area A.width)) (mmu : Bool) : Prop :=
  Settled s live mmu ∧ s.id = n

/-- Handing out changes nothing about whose areas these are. -/
theorem owned_grants (n : Nat) : Grants (anyTarget A) Anything (Owned (A := A) n) where
  toTame := anyTarget_tame
  holds := fun _ => trivial
  opens := by
    rintro s live mmu k ⟨h, hid⟩ ho
    refine wp_and (settled_grants.opens h ho) ?_
    refine anyTarget_tame.wp_openWindow (R := fun s _ => s.id = n) (fun _ => trivial) k ?_
    refine wp_mmuOn (fun on => ⟨hid, fun _ base _ _ _ => ?_⟩) fun e => ⟨hid, fun _ _ => nofun⟩
    exact (insert_id _ _).trans hid
  cuts := by
    rintro s live mmu k i ⟨h, hid⟩ hpos hwords hi hb
    obtain ⟨hs, hsize⟩ := settled_grants.cuts h hpos hwords hi hb
    exact ⟨⟨hs, (split_id s i k).trans hid⟩, hsize⟩
  saves := by
    rintro s live mmu k i ⟨h, hid⟩ hpos hwords hi hb
    have hown : (anyTarget A).wp Anything ((saveBackup i).run.run (s.split i k))
        (fun r _ => r.2.id = n) mmu := by
      rw [saveBackup]
      refine wp_get (wp_modify (wp_seq (wp_outcome (wp_lift (wp_readBuffer ?_)))))
      rintro (e | bytes)
      · exact (merge_id _).trans ((split_id s i k).trans hid)
      · exact (split_id s i k).trans hid
    refine wp_mono (wp_and (settled_grants.saves h hpos hwords hi hb) hown) ?_
    rintro ⟨_ | _, s'⟩ mmu' ⟨hs, hid'⟩
    · exact ⟨hs, hid'⟩
    · exact ⟨⟨hs.1, hid'⟩, hs.2⟩

/-- Blocks are given back, and neighbours joined, one by one. -/
theorem since_releases (s₀ : Areas A.width) (putBack : Bool) :
    Releases (anyTarget A) Anything (fun s live mmu => Loose s live mmu ∧ Since s₀ s)
      (fun s live mmu => Settled s live mmu ∧ Since s₀ s) putBack :=
  settled_releases_with (fun hs hi hf h => h.release hs hi hf) (fun hs h => h.merge hs) putBack

/-- Giving back everything, and closing the window. -/
theorem wp_freeAll_since (h : Settled s live mmu) :
    (anyTarget A).wp Anything ((freeAll (A := A)).run s)
      (fun r _ => Closed r.2 [] ∧ Since s r.2) mmu := by
  have hsince := Since.refl h.standing.slotted
  refine wp_then (wp_mono ((since_releases s true).wp_freeAllRestore ⟨h, hsince⟩) ?_)
  rintro ⟨_, s'⟩ mmu' ⟨h', hsince'⟩
  have hs' := h'.standing.slotted
  exact ⟨closed_discard hs', hsince'.discard hs'⟩

end Operations

end Areas

/-! ## Tasks -/

/-- What is done with the areas of a target. -/
inductive AreaTask (w : Nat) where
  | serve (request : AreaRequest w)
  /-- All areas are given back, then the window is moved or resized. -/
  | reconfigure (config : AreaConfig w)

namespace AreaTask

variable {A : Arch}

/-- Does a task; answers which handle was issued. -/
def perform : AreaTask A.width →
    StateT (Areas A.width) (Dialogue A) (Option (Area A.width))
  | .serve request => request.perform
  | .reconfigure config => do
    Areas.reconfigure config
    return none

/-- The handles that hold after a task. -/
def live {w : Nat} (handles : List (Area w)) : AreaTask w → Option (Area w) → List (Area w)
  | .serve request, issued => request.live handles issued
  | .reconfigure _, _ => []

/-- What a task leads to. -/
structure Done (task : AreaTask A.width) (s : Areas A.width) (handles : List (Area A.width))
    (issued : Option (Area A.width)) (s' : Areas A.width) (mmu : Bool) : Prop where
  settled : Areas.Settled s' (task.live handles issued) mmu
  turn : Areas.Turn s s' handles (task.live handles issued)
  issued : ∀ a ∈ issued, a ∈ task.live handles issued

open Areas

section Steps

variable {s s' : Areas A.width} {handles : List (Area A.width)} {mmu : Bool}

/-- A request for a handle. -/
theorem done_issued {task : AreaTask A.width} {issued : Option (Area A.width)}
    (hlive : task.live handles issued = handles ++ issued.toList)
    (h : Owned s.id s' (handles ++ issued.toList) mmu) : task.Done s handles issued s' mmu where
  settled := hlive ▸ h.1
  turn := .of_subset h.2 (hlive ▸ List.subset_append_left _ _)
  issued := by
    intro a ha
    rw [hlive]
    exact List.mem_append_right _ (Option.mem_toList.mpr ha)

/-- One handle is given back. -/
theorem done_freed {task : AreaTask A.width} {id : AreaId} (hs : Settled s handles mmu)
    (hlive : task.live handles none = without handles id) {mmu' : Bool}
    (h : Settled s' (without handles id) mmu' ∧ Since s s') :
    task.Done s handles none s' mmu' where
  settled := hlive ▸ h.1
  turn := by
    rw [hlive]
    refine h.2.turn hs.standing h.1.standing ?_
    intro a ha hn b hb hid
    have hne : b.id ≠ id := of_decide_eq_true (List.mem_filter.mp hb).2
    exact hn (List.mem_filter.mpr ⟨ha, decide_eq_true (hid ▸ hne)⟩)
  issued := nofun

/-- All handles are given back. -/
theorem done_cleared {task : AreaTask A.width} (hs : Settled s handles mmu)
    (hlive : task.live handles none = []) {mmu' : Bool}
    (h : Settled s' [] mmu' ∧ Since s s') : task.Done s handles none s' mmu' where
  settled := hlive ▸ h.1
  turn := by
    rw [hlive]
    exact h.2.turn hs.standing h.1.standing fun _ _ _ _ => nofun
  issued := nofun

/-- A task ends a handle only together with the generation of its slot. -/
theorem wp_perform (h : Settled s handles mmu) (task : AreaTask A.width) :
    (anyTarget A).wp Anything (task.perform.run s)
      (fun r mmu => task.Done s handles r.1 r.2 mmu) mmu := by
  have hg := owned_grants (A := A) s.id
  have hr := since_releases s
  have hsince := Since.refl h.standing.slotted
  cases task with
  | reconfigure config =>
      refine wp_then (wp_then (wp_mono (wp_freeAll_since h) ?_))
      rintro ⟨_, s'⟩ mmu' ⟨hc, hsince'⟩
      have hs' : Slotted s' s'.order := hc.order ▸ hc.slotted
      exact done_cleared h rfl ⟨Or.inl (closed_setConfig hs' config), hsince'.setConfig hs' config⟩
  | serve request =>
      cases request with
      | alloc size =>
          exact wp_mono (wp_issue (hg.wp_alloc ⟨h, rfl⟩ size)) fun _ _ => done_issued rfl
      | allocTry size =>
          exact wp_mono (wp_issue (hg.wp_allocTry ⟨h, rfl⟩ size)) fun _ _ => done_issued rfl
      | allocShrinking preferred least =>
          exact wp_mono (wp_issue (hg.wp_allocShrinking ⟨h, rfl⟩ preferred least)) fun _ _ =>
            done_issued rfl
      | free area =>
          refine wp_then (wp_mono ((hr true).wp_freeRestore ⟨h, hsince⟩ area) ?_)
          exact fun _ _ => done_freed h rfl
      | freeRestore area putBack =>
          refine wp_then (wp_mono ((hr putBack).wp_freeRestore ⟨h, hsince⟩ area) ?_)
          exact fun _ _ => done_freed h rfl
      | freeAll =>
          refine wp_then (wp_mono (wp_freeAll_since h) ?_)
          rintro ⟨_, s'⟩ mmu' ⟨hc, hsince'⟩
          exact done_cleared h rfl ⟨Or.inl hc, hsince'⟩
      | freeAllRestore putBack =>
          refine wp_then (wp_mono ((hr putBack).wp_freeAllRestore ⟨h, hsince⟩) ?_)
          exact fun _ _ => done_cleared h rfl
      | setConfig config =>
          have hs := h.standing.slotted
          exact done_cleared h rfl ⟨Or.inl (closed_setConfig hs config), hsince.setConfig hs config⟩

end Steps

end AreaTask

end DebugLink
