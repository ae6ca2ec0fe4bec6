import DebugLink.Proofs.Area.Fate
import DebugLink.Proofs.Transcript
import Mathlib.Logic.Function.Basic

/-!
# Stale handles stay stale

A `Ledger` is a collection of areas, each on a target of its own, with an entry for every handle
that was EVER issued: which areas issued it, whether it has held ever since, and how often the
generation of its slot went up meanwhile.  `Ledger.Reachable` is every ledger that comes about
by tasks in any order, whatever the targets answer.

* `Issue.Sound` is the invariant of an entry: the generation that the slot has NOW is the one the
  handle was issued for, plus the number of times it went up since; and that number is not zero
  once the handle was lost.
* `Ledger.Reachable.staysStale` reads it off: a handle is accepted until it is given back or
  invalidated, and refused ever after, unless the counter comes round.
-/

namespace DebugLink

open Environment Dialogue

/-- Nothing but a note. -/
def Op.Told {A : Arch} : Op A → Prop
  | .note _ => True
  | _ => False

/-! ## Accepting and refusing -/

namespace Areas

variable {A : Arch}

/-- These areas take a handle for one of theirs, and find what it was issued for. -/
def Accepts (s : Areas A.width) (area : Area A.width) : Prop :=
  ∃ i, s.lookup (A := A) area.id = .done (some i) ∧ s.handle i = area ∧
    (s.block i).free = false

/-- These areas take no handle of this name: they say so, do not turn to the target, and stay as
    they are. -/
def Refuses (s : Areas A.width) (id : AreaId) : Prop :=
  ∀ area : Area A.width, area.id = id → ∀ putBack : Bool,
    ((freeRestore (A := A) area putBack).run.run s).Within Op.Told
      (· = (.error .staleHandle, s))

variable {s : Areas A.width} {live : List (Area A.width)} {mmu : Bool}

/-- A name that leads nowhere is refused. -/
theorem refuses_of_lookup {id : AreaId}
    (h : (s.lookup (A := A) id).Within Op.Told (· = none)) : s.Refuses id := by
  rintro area rfl putBack
  rw [freeRestore]
  refine .seq (.seq (.liftDialogue (h.mono ?_)))
  rintro _ rfl
  exact ⟨trivial, fun _ => rfl⟩

/-- What belongs to others is refused. -/
theorem refuses_foreign {id : AreaId} (h : id.owner ≠ s.id) : s.Refuses id := by
  refine refuses_of_lookup ?_
  rw [lookup, if_neg h]
  exact ⟨trivial, fun _ => rfl⟩

/-- What was issued for another generation of its slot is refused. -/
theorem refuses_outdated {id : AreaId} (hid : id.owner = s.id)
    (h : (s.slot id.index).generation ≠ id.generation) : s.Refuses id := by
  refine refuses_of_lookup ?_
  have hnone : s.slotOf? id = none := by
    rw [slotOf?]
    cases hslot : s.slots[id.index]? with
    | none => rfl
    | some slot =>
        have hs : s.slot id.index = slot := by
          rw [Areas.slot, Array.getD_eq_getD_getElem?, hslot]
          rfl
        rw [hs] at h
        simp [h]
  rw [lookup, if_pos hid, hnone]
  exact rfl

/-- A handle that holds is accepted. -/
theorem Settled.accepts (h : Settled s live mmu) {area : Area A.width} (ha : area ∈ live) :
    s.Accepts area := by
  have hk := h.standing
  obtain ⟨i, hi, hf, rfl⟩ := mem_handles.mp (hk.handles.mem_iff.mp ha)
  refine ⟨i, ?_, rfl, hf⟩
  have hid : (s.handle i).id.owner = s.id := rfl
  rw [lookup, if_pos hid, slotOf?_handle hk.slotted hi hf]
  rfl

end Areas

/-! ## The ledger -/

/-- A handle that was issued. -/
structure Issue {ι : Type} (A : ι → Arch) where
  /-- Who issued it. -/
  home : ι
  area : Area (A home).width
  /-- Has it held ever since? -/
  holds : Bool := true
  /-- How often the generation of its slot went up since. -/
  rises : Nat := 0

/-- Areas, each on a target of its own; the handles of each that hold, and what was last learned
    about its memory management unit; and all handles that were ever issued. -/
structure Ledger {ι : Type} (A : ι → Arch) where
  areas : (i : ι) → Areas (A i).width
  live : (i : ι) → List (Area (A i).width)
  mmu : ι → Bool
  issues : List (Issue A)

/-- A handle after a task: once it does not hold, it never will again. -/
def Issue.age {ι : Type} {A : ι → Arch} (before after : (i : ι) → Areas (A i).width)
    (live : (i : ι) → List (Area (A i).width)) (x : Issue A) : Issue A :=
  { x with
    holds := x.holds && decide (x.area ∈ live x.home)
    rises := x.rises + Areas.raised (before x.home) (after x.home) x.area.id.index }

namespace Ledger

variable {ι : Type} [DecidableEq ι] {A : ι → Arch}

/-- The ledger after a task on the areas `i`, which are `s` now. -/
def after (l : Ledger A) (i : ι) (task : AreaTask (A i).width) (issued : Option (Area (A i).width))
    (s : Areas (A i).width) (mmu : Bool) : Ledger A :=
  let areas := Function.update l.areas i s
  let live := Function.update l.live i (task.live (l.live i) issued)
  { areas
    live
    mmu := Function.update l.mmu i mmu
    issues := l.issues.map (Issue.age l.areas areas live) ++
      issued.toList.map fun area => { home := i, area } }

/-- The ledgers that come about. -/
inductive Reachable : Ledger A → Prop where
  | new (ids : ι → Nat) (distinct : Function.Injective ids)
      (config : (i : ι) → AreaConfig (A i).width) (mmu : ι → Bool) :
      Reachable {
        areas := fun i => { id := ids i, config := config i }
        live := fun _ => []
        mmu
        issues := [] }
  | task {l : Ledger A} (i : ι) (task : AreaTask (A i).width)
      {issued : Option (Area (A i).width)} {s : Areas (A i).width} {mmu : Bool} :
      Reachable l →
      (Areas.anyTarget (A i)).Reaches (task.perform.run (l.areas i)) (l.mmu i)
        (.done (issued, s)) mmu →
      Reachable (l.after i task issued s mmu)

end Ledger

open Areas

/-- What the ledger says about a handle is so. -/
structure Issue.Sound {ι : Type} {A : ι → Arch} (x : Issue A) (s : Areas (A x.home).width)
    (live : List (Area (A x.home).width)) : Prop where
  owner : x.area.id.owner = s.id
  generation : (s.slot x.area.id.index).generation =
    x.area.id.generation + UInt32.ofNat x.rises
  live : x.holds = true → x.area ∈ live
  risen : x.holds = false → 0 < x.rises

/-- Each entry stays true from task to task. -/
theorem Issue.Sound.age {ι : Type} {A : ι → Arch} {before after : (i : ι) → Areas (A i).width}
    {live live' : (i : ι) → List (Area (A i).width)} {x : Issue A}
    (h : x.Sound (before x.home) (live x.home))
    (ht : Turn (before x.home) (after x.home) (live x.home) (live' x.home)) :
    (x.age before after live').Sound (after x.home) (live' x.home) where
  owner := h.owner.trans ht.id.symm
  generation := by
    have hgen := h.generation
    simp only [Issue.age, raised, UInt32.ofNat_add, UInt32.ofNat_toNat]
    rw [← add_assoc, ← hgen, add_sub_cancel]
  live := by
    intro hholds
    show x.area ∈ live' x.home
    exact of_decide_eq_true (Bool.and_eq_true_iff.mp hholds).2
  risen := by
    intro hlost
    show 0 < x.rises + _
    rcases Bool.and_eq_false_iff.mp hlost with hlost | hlost
    · exact Nat.add_pos_left (h.risen hlost) _
    · cases hholds : x.holds with
      | false => exact Nat.add_pos_left (h.risen hholds) _
      | true =>
          exact Nat.add_pos_right _ (ht.raised _ (h.live hholds) (of_decide_eq_false hlost))

/-- A handle that was just issued. -/
theorem Issue.sound_new {ι : Type} {A : ι → Arch} {i : ι} {s : Areas (A i).width}
    {live : List (Area (A i).width)} {mmu : Bool} (hs : Settled s live mmu)
    {area : Area (A i).width} (ha : area ∈ live) :
    ({ home := i, area } : Issue A).Sound s live := by
  obtain ⟨j, _, _, rfl⟩ := mem_handles.mp (hs.standing.handles.mem_iff.mp ha)
  exact ⟨rfl, (add_zero _).symm, fun _ => ha, nofun⟩

namespace Ledger

variable {ι : Type} [DecidableEq ι] {A : ι → Arch} {l : Ledger A}

/-- What is known of a ledger. -/
structure Sound (l : Ledger A) : Prop where
  distinct : Function.Injective fun i => (l.areas i).id
  settled : ∀ i, Settled (l.areas i) (l.live i) (l.mmu i)
  issues : ∀ x ∈ l.issues, x.Sound (l.areas x.home) (l.live x.home)

/-- The ledger stays sound: a task of one arena leaves the others as they were. -/
theorem Sound.after (h : l.Sound) {i : ι} {task : AreaTask (A i).width}
    {issued : Option (Area (A i).width)} {s : Areas (A i).width} {mmu : Bool}
    (hd : task.Done (l.areas i) (l.live i) issued s mmu) : (l.after i task issued s mmu).Sound := by
  have hturn : ∀ j, Turn (l.areas j) ((l.after i task issued s mmu).areas j) (l.live j)
      ((l.after i task issued s mmu).live j) := by
    intro j
    by_cases hj : j = i
    · subst hj
      simp only [Ledger.after, Function.update_self]
      exact hd.turn
    · simp only [Ledger.after, Function.update_of_ne hj]
      exact .refl _ _
  have hsettled : ∀ j, Settled ((l.after i task issued s mmu).areas j)
      ((l.after i task issued s mmu).live j) ((l.after i task issued s mmu).mmu j) := by
    intro j
    by_cases hj : j = i
    · subst hj
      simp only [Ledger.after, Function.update_self]
      exact hd.settled
    · simp only [Ledger.after, Function.update_of_ne hj]
      exact h.settled j
  refine ⟨?_, hsettled, ?_⟩
  · intro j k hjk
    refine h.distinct ?_
    exact (hturn j).id.symm.trans (hjk.trans (hturn k).id)
  · intro x hx
    rcases List.mem_append.mp hx with hx | hx
    · obtain ⟨y, hy, rfl⟩ := List.mem_map.mp hx
      exact (h.issues y hy).age (hturn y.home)
    · obtain ⟨area, ha, rfl⟩ := List.mem_map.mp hx
      refine Issue.sound_new (hsettled i) ?_
      simp only [Ledger.after, Function.update_self]
      exact hd.issued area (Option.mem_toList.mp ha)

/-- EVERY LEDGER THAT COMES ABOUT IS SOUND. -/
theorem Reachable.sound (h : l.Reachable) : l.Sound := by
  induction h with
  | new ids distinct config mmu =>
      exact ⟨distinct, fun i => Or.inl (closed_new (ids i) (config i)), nofun⟩
  | @task l i task issued s mmu _ run ih =>
      refine ih.after ?_
      have hwp := task.wp_perform (ih.settled i)
      exact (anyTarget_tame.reached (fun _ _ _ => trivial) hwp run :)

/-- STALE HANDLES STAY STALE: as long as a handle holds, the areas that issued it find what it was
    issued for; once it has been given back or invalidated they refuse it for good, unless the
    generation of its slot went all the way round; and other areas refuse it anyway. -/
theorem Reachable.staysStale (h : l.Reachable) {x : Issue A} (hx : x ∈ l.issues) :
    (x.holds = true → (l.areas x.home).Accepts x.area) ∧
    (x.holds = false → x.rises < 2 ^ 32 → (l.areas x.home).Refuses x.area.id) ∧
    ∀ i, i ≠ x.home → (l.areas i).Refuses x.area.id := by
  have hs := h.sound
  have hsound := hs.issues x hx
  refine ⟨?_, ?_, ?_⟩
  · intro hholds
    exact (hs.settled x.home).accepts (hsound.live hholds)
  · intro hlost hrises
    refine refuses_outdated hsound.owner ?_
    rw [hsound.generation]
    intro heq
    have hpos := hsound.risen hlost
    have hzero : UInt32.ofNat x.rises = 0 := add_eq_left.mp heq
    have hnat := congrArg UInt32.toNat hzero
    rw [UInt32.toNat_ofNat', Nat.mod_eq_of_lt hrises] at hnat
    exact absurd hnat (Nat.ne_of_gt hpos)
  · intro i hi
    refine refuses_foreign ?_
    rw [hsound.owner]
    exact fun heq => hi (hs.distinct heq).symm

/-- Two plain cores with areas, none of which was handed out. -/
def sampleStart : Ledger fun _ : Bool => plainCore 32 where
  areas i := { id := i.toNat + 1, config := sample.config }
  live _ := []
  mmu _ := true
  issues := []

/-- The areas after their first handle was given back. -/
def sampleFreed : Areas (plainCore 32).width :=
  (sampleAfter.release 0).merge

/-- The next handle, on the slot of the first one. -/
def sampleNext : Area (plainCore 32).width :=
  { sampleArea with id := { sampleArea.id with generation := 1 } }

/-- A handle is issued, given back, and its slot used again. -/
def sampleLedger : Ledger fun _ : Bool => plainCore 32 :=
  ((sampleStart.after false (.serve (.alloc 14)) (some sampleArea) sampleAfter false).after
    false (.serve (.free sampleArea)) none sampleFreed false).after
    false (.serve (.alloc 14)) (some sampleNext) ((sampleFreed.split 0 16).handOut 0) false

theorem sampleLedger_reachable : sampleLedger.Reachable := by
  refine .task false _ (.task false _ (.task false _ ?_ ?_) ?_) ?_
  · exact .new (fun i : Bool => i.toNat + 1) (by decide) (fun _ => sample.config) fun _ => true
  · refine .answer false rfl (.answer () rfl (.answer () rfl (.answer () rfl (.answer () rfl ?_))))
    exact .refl _ _
  · refine .answer () rfl (.answer () rfl ?_)
    exact .refl _ _
  · refine .answer () rfl (.answer () rfl (.answer () rfl ?_))
    exact .refl _ _

theorem Reachable.staysStale_reissued :
    { home := false, area := sampleArea, holds := false, rises := 1 } ∈ sampleLedger.issues ∧
      (sampleLedger.areas false).Refuses sampleArea.id ∧
      (sampleLedger.areas true).Refuses sampleArea.id ∧
      (sampleLedger.areas false).Accepts sampleNext := by
  have hold : { home := false, area := sampleArea, holds := false, rises := 1 } ∈
      sampleLedger.issues := List.mem_cons_self
  have hnext : { home := false, area := sampleNext } ∈ sampleLedger.issues :=
    List.mem_cons_of_mem _ List.mem_cons_self
  obtain ⟨_, hstale, hforeign⟩ := Reachable.staysStale sampleLedger_reachable hold
  obtain ⟨haccepts, _, _⟩ := Reachable.staysStale sampleLedger_reachable hnext
  exact ⟨hold, hstale rfl (by decide), hforeign true (by decide), haccepts rfl⟩

end Ledger

end DebugLink
