import DebugLink.Area.Release
import DebugLink.Proofs.Area.Phases
import DebugLink.Proofs.Environment

/-!
# What the operations keep

An operation on the areas is a few changes of the tiling with accesses to the target in between.
Whatever an invariant says about the target, and whichever target that is, it is kept by all
operations as soon as it is kept by the parts:

* `Grants`: opening the window, and handing out the block that was chosen;
* `Releases`: giving a block back, and joining what is free.

`S` is what holds between operations (settled), `K` what holds while blocks are being given
back.  Both speak of the areas, of the handles that hold, and of the state of the target.
-/

namespace DebugLink.Areas

open Environment

variable {A : Arch} {W : Type}

/-- What is known of the areas, the handles that hold, and the target. -/
abbrev Known (A : Arch) (W : Type) := Areas A.width → List (Area A.width) → W → Prop

/-- Nothing happens on its own, and notes leave the state as it is. -/
structure Tame (env : Environment A W) : Prop where
  still : ∀ {w w' : W}, ¬ env.moves w w'
  note : ∀ {w w' : W} {n : Note} {a : Unit}, env.answers w (.note n) a w' → w' = w

namespace Tame

variable {env : Environment A W} {I P : W → Prop}

/-- What no note and no question changes lasts. -/
theorem lasts (ht : Tame env) (h : ∀ w, P w → I w) : env.Lasts I P :=
  ⟨fun hm => absurd hm ht.still, h _⟩

/-- What a weakest precondition says of the end of a run. -/
theorem reached (ht : Tame env) {α : Type} {d : Dialogue A α} {Q : α → W → Prop} {x : α} {w w' : W}
    (hI : ∀ x w, Q x w → I w) (h : env.wp I d Q w) (run : env.Reaches d w (.done x) w') : Q x w' :=
  wp_done_at (fun x => ht.lasts (hI x)) h run

/-- Nothing changes with a note. -/
theorem wp_note (ht : Tame env) {α : Type} {n : Note} {next : Unit → Dialogue A α}
    {Q : α → W → Prop} {w : W} (hI : I w) (h : env.wp I (next ()) Q w) :
    env.wp I (.ask (.note n) next) Q w := by
  have hP : env.Lasts I fun v => v = w := ht.lasts fun v hv => hv ▸ hI
  refine wp_ask hP rfl ?_
  rintro v a w' rfl ha
  rw [ht.note ha]
  exact h

/-- Nor with a line for each block. -/
theorem wp_noteBlocks (ht : Tame env) {Q : Unit → W → Prop} {w : W} (hI : I w) (h : Q () w)
    (blocks : List (Block A.width)) : env.wp I (noteBlocks blocks) Q w := by
  induction blocks with
  | nil => exact h
  | cons b rest ih => exact ht.wp_note hI ih

/-- Nor with a log of the layout. -/
theorem wp_noteLayout (ht : Tame env) {s : Areas A.width} {Q : Unit × Areas A.width → W → Prop}
    {w : W} (hI : I w) (h : Q ((), s) w) :
    env.wp I ((noteLayout (A := A)).run s) Q w := by
  refine (wp_bind (noteBlocks s.layout) _).mpr ?_
  exact ht.wp_noteBlocks hI h _

/-- Opening the window, from what the memory management unit is like. -/
theorem wp_openWindow (ht : Tame env) {R : Areas A.width → W → Prop} {s : Areas A.width} {w : W}
    (hI : ∀ {s w}, R s w → I w) (n : Nat)
    (h : env.wp I (mmuOn (A := A)).run (fun r w => R s w ∧ ∀ on base, r = .ok on →
      s.config.window? on = some base → Arch.Fits base s.config.usable →
      R (s.openAt base) w) w) :
    env.wp I ((openWindow n).run.run s) (fun r w => R r.2 w) w := by
  rw [openWindow]
  refine wp_seq (wp_lift (wp_mono h ?_))
  rintro (e | on) w ⟨hR, hopen⟩
  · exact hR
  · refine wp_get ?_
    dsimp only
    cases hw : s.config.window? on with
    | none => exact wp_seq (ht.wp_note (hI hR) hR)
    | some base =>
        refine wp_seq (ht.wp_note (hI hR) ?_)
        by_cases hfits : Arch.Fits base s.config.usable
        · rw [if_pos hfits]
          exact hopen on base rfl hw hfits
        · rw [if_neg hfits]
          exact wp_seq (ht.wp_note (hI hR) hR)

end Tame

/-! ## Handing out -/

/-- The end of a request: the block in slot `i`, of `n` bytes, is handed out. -/
def handOver (i n : Nat) : AreaM A (Area A.width) := do
  modify (·.handOut i)
  let s ← get
  note (.allocated n (s.block i).address.toNat)
  noteLayout (A := A)
  return { s.handle i with size := n }

/-- A request for `n` bytes, once the window is open. -/
def serve (n : Nat) : AreaM A (Area A.width) := do
  match (← get).firstFit? n with
  | none => throw (.resourceNotAvailable n (← get).available)
  | some i =>
    modify (·.split i n)
    if (← get).config.backup then
      saveBackup i
    handOver i n

/-- An attempt rounds the size up, opens the window if it is closed, and serves the request. -/
theorem allocTry_eq (size : Nat) : allocTry (A := A) size = (do
    match roundUp? size with
    | none => throw (.resourceNotAvailable size (← get).available)
    | some n =>
      if !(← get).opened then
        openWindow n
      serve n) := rfl

/-- The handles that hold after an attempt to get another one. -/
def granted {w : Nat} (live : List (Area w)) : Except Error (Area w) → List (Area w)
  | .ok area => live ++ [area]
  | .error _ => live

/-- The block in slot `i` has been cut to `n` bytes, and once it is handed out, all is settled. -/
def Ready (S : Known A W) (s : Areas A.width) (live : List (Area A.width)) (i n : Nat) (w : W) :
    Prop :=
  S (s.handOut i) (live ++ [(s.handOut i).handle i]) w ∧ ((s.handOut i).block i).size = n

/-- The parts of handing out keep `S`. -/
structure Grants (env : Environment A W) (I : W → Prop) (S : Known A W) : Prop
    extends Tame env where
  holds : ∀ {s live w}, S s live w → I w
  opens : ∀ {s live w n}, S s live w → s.opened = false →
    env.wp I ((openWindow n).run.run s) (fun r w => S r.2 live w) w
  cuts : ∀ {s live w n i}, S s live w → 0 < n → n % 4 = 0 → s.firstFit? n = some i →
    s.config.backup = false → Ready S (s.split i n) live i n w
  saves : ∀ {s live w n i}, S s live w → 0 < n → n % 4 = 0 → s.firstFit? n = some i →
    s.config.backup = true → env.wp I ((saveBackup i).run.run (s.split i n)) (fun r w =>
      match r.1 with
      | .ok () => Ready S r.2 live i n w
      | .error _ => S r.2 live w) w

namespace Grants

variable {env : Environment A W} {I : W → Prop} {S : Known A W} {s : Areas A.width}
  {live : List (Area A.width)} {w : W}

/-- What was rounded up is a number of words, and not zero. -/
theorem roundUp_spec {size n : Nat} (h : roundUp? size = some n) : 0 < n ∧ n % 4 = 0 := by
  rw [roundUp?] at h
  split at h
  · have h := Option.some.inj h
    omega
  · exact absurd h (by simp)

/-- A block that is ready is handed over with its handle. -/
theorem wp_handOver (hg : Grants env I S) {i n : Nat} (h : Ready S s live i n w) :
    env.wp I ((handOver i n).run.run s) (fun r w => S r.2 (granted live r.1) w) w := by
  obtain ⟨hs, hsize⟩ := h
  have hI : I w := hg.holds hs
  refine wp_modify (wp_get (wp_seq (hg.wp_note hI ?_)))
  refine wp_seq (wp_liftState (hg.wp_noteLayout hI ?_))
  show S (s.handOut i) (live ++ [{ (s.handOut i).handle i with size := n }]) w
  rw [← hsize]
  exact hs

/-- The first block that is large enough is cut to size, saved if need be, and handed over. -/
theorem wp_serve (hg : Grants env I S) {n : Nat} (hpos : 0 < n) (hwords : n % 4 = 0)
    (h : S s live w) :
    env.wp I ((serve n).run.run s) (fun r w => S r.2 (granted live r.1) w) w := by
  rw [serve]
  refine wp_get ?_
  cases hi : s.firstFit? n with
  | none => exact h
  | some i =>
      refine wp_modify (wp_get ?_)
      -- with backups the block is saved before it is handed over
      have hconfig := split_config s i n
      cases hb : s.config.backup with
      | false =>
          rw [hconfig, hb, if_neg Bool.false_ne_true]
          exact hg.wp_handOver (hg.cuts h hpos hwords hi hb)
      | true =>
          rw [hconfig, hb, if_pos rfl]
          refine wp_seq (wp_mono (hg.saves h hpos hwords hi hb) ?_)
          rintro ⟨_ | _, s'⟩ w' hs
          · exact hs
          · exact hg.wp_handOver hs

/-- An attempt issues a handle, or none and leaves everything in order. -/
theorem wp_allocTry (hg : Grants env I S) (h : S s live w) (size : Nat) :
    env.wp I ((allocTry size).run.run s) (fun r w => S r.2 (granted live r.1) w) w := by
  rw [allocTry_eq]
  cases hn : roundUp? size with
  | none => exact h
  | some n =>
      obtain ⟨hpos, hwords⟩ := roundUp_spec hn
      refine wp_get ?_
      cases ho : s.opened with
      | true => exact hg.wp_serve hpos hwords h
      | false =>
          refine wp_seq (wp_mono (hg.opens h ho) ?_)
          rintro ⟨_ | _, s'⟩ w' hs
          · exact hs
          · exact hg.wp_serve hpos hwords hs

/-- So does a request for an area. -/
theorem wp_alloc (hg : Grants env I S) (h : S s live w) (size : Nat) :
    env.wp I ((alloc size).run.run s) (fun r w => S r.2 (granted live r.1) w) w := by
  rw [alloc]
  refine wp_seq (wp_outcome (wp_mono (hg.wp_allocTry h size) ?_))
  rintro ⟨e | area, s'⟩ w' hs
  · have hI : I w' := hg.holds hs
    cases e with
    | resourceNotAvailable requested available => exact hg.wp_note hI hs
    | _ => exact hs
  · exact hs

/-- So does a search, whichever of its attempts is the last. -/
theorem wp_allocHalving (hg : Grants env I S) {least : Nat} (hl : 0 < least) (size : Nat) :
    ∀ {s : Areas A.width} {w : W}, S s live w →
      env.wp I ((allocHalving least size hl).run.run s)
        (fun r w => S r.2 (granted live r.1) w) w := by
  induction size using Nat.strongRecOn with
  | ind size ih =>
      intro s w h
      rw [allocHalving]
      refine wp_seq (wp_outcome (wp_mono (hg.wp_allocTry h size) ?_))
      rintro ⟨e | area, s'⟩ w' hs
      · cases e with
        | resourceNotAvailable requested available =>
            show env.wp I ((if h : least ≤ size / 2 then allocHalving least (size / 2) hl
              else do
                note (.noneLargeEnough least)
                throw (.resourceNotAvailable requested available)
              : AreaM A (Area A.width)).run.run s') _ w'
            split
            · next hsize => exact ih (size / 2) (by omega) hs
            · exact hg.wp_note (hg.holds hs) hs
        | _ => exact hs
      · exact hs

/-- A search begins with the preferred size. -/
theorem wp_allocShrinking (hg : Grants env I S) (h : S s live w) (preferred least : Nat) :
    env.wp I ((allocShrinking preferred least).run.run s)
      (fun r w => S r.2 (granted live r.1) w) w := by
  rw [allocShrinking]
  exact hg.wp_allocHalving _ _ h

end Grants

/-! ## Taking back -/

/-- The end of a release: the block in slot `i` is free again, and it is told what went wrong when
    its contents were put back. -/
def takeBack (area : Area A.width) (i : Nat) (restored : Except Error Unit) : AreaM A Unit := do
  modify (·.release i)
  note (.freed area.size area.address.toNat)
  modify merge
  noteLayout (A := A)
  match restored with
  | .ok () => return ()
  | .error e => throw e

/-- A handle is looked up before anything is given back. -/
theorem freeRestore_eq (area : Area A.width) (putBack : Bool) : freeRestore area putBack = (do
    match ← (← get).lookup area.id with
    | none =>
      note (.staleArea area.address.toNat)
      throw .staleHandle
    | some i =>
      if putBack then takeBack area i (← outcome ((← get).restore i))
      else takeBack area i (.ok ())) := rfl

/-- The parts of taking blocks back keep `K`, and joining what is free leads to `S`. -/
structure Releases (env : Environment A W) (I : W → Prop) (K S : Known A W) (putBack : Bool) :
    Prop extends Tame env where
  holds : ∀ {s live w}, K s live w → I w
  loose : ∀ {s live w}, S s live w → K s live w
  slotted : ∀ {s live w}, K s live w → Slotted s s.order
  handles : ∀ {s live w}, K s live w → live.Perm (s.handles s.order)
  restores : ∀ {s live w i}, K s live w → i ∈ s.order → (s.block i).free = false →
    putBack = true → env.wp I (s.restore i).run
      (fun _ w => K (s.release i) (without live (s.handle i).id) w) w
  drops : ∀ {s live w i}, K s live w → i ∈ s.order → (s.block i).free = false →
    putBack = false → K (s.release i) (without live (s.handle i).id) w
  merges : ∀ {s live w}, K s live w → S s.merge live w

/-- A handle that holds names a block that is not free, and is the handle on it. -/
theorem slotOf?_some {w : Nat} {s : Areas w} {order : List Nat} (h : Slotted s order) {id : AreaId}
    {i : Nat} (hid : id.owner = s.id) (hi : s.slotOf? id = some i) :
    i ∈ order ∧ (s.block i).free = false ∧ (s.handle i).id = id := by
  rw [slotOf?] at hi
  split at hi
  · next slot hslot =>
    split at hi
    · next hcond =>
      obtain rfl := Option.some.inj hi
      obtain ⟨hlt, hget⟩ := Array.getElem?_eq_some_iff.mp hslot
      have hs : s.slot id.index = slot := by
        rw [Areas.slot, Array.getD_eq_getD_getElem?, hslot]
        rfl
      simp only [Bool.and_eq_true, Bool.not_eq_true', decide_eq_true_eq] at hcond
      obtain ⟨⟨hlive, hgen⟩, hfree⟩ := hcond
      refine ⟨(h.mem_iff _).mpr ⟨hlt, by rw [hs, hlive]⟩, by rw [block_eq, hs, hfree], ?_⟩
      simp only [handle, hs, hgen, ← hid]
    · exact absurd hi (by simp)
  · exact absurd hi (by simp)

/-- A handle on a block that is not free holds. -/
theorem slotOf?_handle {w : Nat} {s : Areas w} {order : List Nat} (h : Slotted s order) {i : Nat}
    (hi : i ∈ order) (hf : (s.block i).free = false) : s.slotOf? (s.handle i).id = some i := by
  obtain ⟨hlt, hlive⟩ := (h.mem_iff i).mp hi
  rw [block_eq] at hf
  simp only [slotOf?, handle, getElem?_slot hlt, hlive, hf]
  rfl

/-- Looking up a handle on a block that is not free. -/
theorem lookup_handle {s : Areas A.width} {order : List Nat} (h : Slotted s order) {i : Nat}
    (hi : i ∈ order) (hf : (s.block i).free = false) :
    s.lookup (A := A) (s.handle i).id = .done (some i) := by
  rw [lookup]
  exact (if_pos rfl).trans (congrArg Dialogue.done (slotOf?_handle h hi hf))

namespace Releases

variable {env : Environment A W} {I : W → Prop} {K S : Known A W} {putBack : Bool}
  {s : Areas A.width} {live : List (Area A.width)} {w : W}

/-- A handle that is found is that of a block in use; one that is not holds nothing. -/
theorem wp_lookup (hr : Releases env I K S putBack) (h : K s live w) (id : AreaId)
    {Q : Option Nat → W → Prop}
    (found : ∀ i, i ∈ s.order → (s.block i).free = false → (s.handle i).id = id → Q (some i) w)
    (stale : without live id = live → Q none w) : env.wp I (s.lookup id) Q w := by
  have hstale : (∀ i ∈ s.order, (s.block i).free = false → (s.handle i).id ≠ id) →
      without live id = live := by
    intro hne
    refine List.filter_eq_self.mpr ?_
    intro a ha
    obtain ⟨i, hi, hf, rfl⟩ := mem_handles.mp ((hr.handles h).mem_iff.mp ha)
    exact decide_eq_true (hne i hi hf)
  rw [lookup]
  split
  · next hid =>
    cases hslot : s.slotOf? id with
    | some i =>
        obtain ⟨hi, hf, hhandle⟩ := slotOf?_some (hr.slotted h) hid hslot
        exact found i hi hf hhandle
    | none =>
        refine stale (hstale ?_)
        rintro i hi hf rfl
        rw [slotOf?_handle (hr.slotted h) hi hf] at hslot
        exact absurd hslot (by simp)
  · next hid =>
    refine hr.wp_note (hr.holds h) (stale (hstale ?_))
    rintro i _ _ rfl
    exact hid rfl

/-- A block that was given back is joined with its neighbours, and the failure to put back is
    reported then. -/
theorem wp_takeBack (hr : Releases env I K S putBack) {area : Area A.width} {i : Nat}
    (hk : K (s.release i) (without live area.id) w) (restored : Except Error Unit) :
    env.wp I ((takeBack area i restored).run.run s)
      (fun r w => S r.2 (without live area.id) w) w := by
  have hI : I w := hr.holds hk
  unfold takeBack
  refine wp_modify (wp_seq (hr.wp_note hI ?_))
  refine wp_modify (wp_seq (wp_liftState (hr.wp_noteLayout hI ?_)))
  cases restored with
  | ok _ => exact hr.merges hk
  | error e => exact hr.merges hk

/-- An area that is given back loses its handle, or had lost it before. -/
theorem wp_freeRestore (hr : Releases env I K S putBack) (h : S s live w)
    (area : Area A.width) :
    env.wp I ((freeRestore area putBack).run.run s)
      (fun r w => S r.2 (without live area.id) w) w := by
  rw [freeRestore_eq]
  refine wp_get (wp_seq (wp_liftDialogue (hr.wp_lookup (hr.loose h) area.id ?_ ?_)))
  · intro i hi hf hid
    cases hp : putBack with
    | true =>
        have hwp := hr.restores (hr.loose h) hi hf hp
        rw [hid] at hwp
        refine wp_get (wp_seq (wp_outcome (wp_lift (wp_mono hwp ?_))))
        intro restored w hk
        exact hr.wp_takeBack hk restored
    | false =>
        have hk := hr.drops (hr.loose h) hi hf hp
        rw [hid] at hk
        exact hr.wp_takeBack hk (.ok ())
  · intro hlive
    have hs : S s (without live area.id) w := hlive.symm ▸ h
    exact hr.wp_note (hr.holds (hr.loose hs)) hs

/-- What giving back the blocks in some slots leads to: these are free, and no others were
    handed out. -/
def Swept (s s' : Areas A.width) (rest : List Nat) : Prop :=
  s'.order = s.order ∧
    ∀ i, (s'.block i).free = false → (s.block i).free = false ∧ i ∉ rest

/-- A free block is passed over. -/
theorem Swept.cons_free {s s' : Areas A.width} {rest : List Nat} {i : Nat}
    (h : Swept s s' rest) (hf : (s.block i).free = true) : Swept s s' (i :: rest) := by
  refine ⟨h.1, ?_⟩
  intro j hj
  obtain ⟨hold, hrest⟩ := h.2 j hj
  refine ⟨hold, List.not_mem_cons_of_ne_of_not_mem ?_ hrest⟩
  rintro rfl
  rw [hf] at hold
  exact absurd hold (by simp)

/-- Any other is given back, and no block behind it changes. -/
theorem Swept.cons_release {s s' : Areas A.width} {rest : List Nat} {i : Nat}
    (h : Swept (s.release i) s' rest) (hlt : i < s.slots.size) : Swept s s' (i :: rest) := by
  have hfree : ((s.release i).block i).free = true := by
    rw [block_eq, slot_release_self hlt]
  obtain ⟨horder, hblocks⟩ := h.cons_free hfree
  refine ⟨horder, ?_⟩
  intro j hj
  obtain ⟨hold, hrest⟩ := hblocks j hj
  rw [block_eq, slot_release_other hlt (List.ne_of_not_mem_cons hrest)] at hold
  exact ⟨hold, hrest⟩

/-- One after the other. -/
theorem wp_releaseEach (hr : Releases env I K S putBack) (rest : List Nat) :
    ∀ {s : Areas A.width} {live : List (Area A.width)} {w : W}, K s live w →
      (∀ i ∈ rest, i ∈ s.order) →
      env.wp I ((releaseEach putBack rest).run s)
        (fun r w => Swept s r.2 rest ∧ ∃ live', K r.2 live' w) w := by
  induction rest with
  | nil =>
      intro s live w h _
      exact ⟨⟨rfl, fun _ hf => ⟨hf, List.not_mem_nil⟩⟩, live, h⟩
  | cons i rest ih =>
      intro s live w h hsub
      have hi : i ∈ s.order := hsub i List.mem_cons_self
      have hlt := (hr.slotted h).lt_size hi
      have hsub' : ∀ j ∈ rest, j ∈ s.order := fun j hj => hsub j (List.mem_cons_of_mem i hj)
      -- what comes after the block was given back
      have hrest : ∀ {live' : List (Area A.width)} {w : W}, K (s.release i) live' w →
          env.wp I ((releaseEach putBack rest).run (s.release i))
            (fun r w => Swept s r.2 (i :: rest) ∧ ∃ live', K r.2 live' w) w := by
        intro live' w hk
        refine wp_mono (ih hk hsub') ?_
        rintro r w ⟨hswept, hk'⟩
        exact ⟨hswept.cons_release hlt, hk'⟩
      rw [releaseEach]
      refine wp_getOnly ?_
      cases hf : (s.block i).free with
      | true =>
          rw [if_neg (by simp)]
          refine wp_mono (ih h hsub') ?_
          rintro r w ⟨hswept, hk⟩
          exact ⟨hswept.cons_free hf, hk⟩
      | false =>
          rw [if_pos (by simp)]
          cases hp : putBack with
          | true =>
              subst hp
              refine wp_getOnly (wp_then (wp_liftOnly (wp_mono (hr.restores h hi hf rfl) ?_)))
              intro _ w hk
              exact hrest hk
          | false =>
              subst hp
              exact hrest (hr.drops h hi hf rfl)

/-- If all blocks are free, no handle holds. -/
theorem live_nil (hr : Releases env I K S putBack) (h : K s live w)
    (hfree : ∀ i ∈ s.order, (s.block i).free = true) : live = [] := by
  have hnone : s.handles s.order = [] := by
    refine List.eq_nil_iff_forall_not_mem.mpr ?_
    intro a ha
    obtain ⟨i, hi, hf, _⟩ := mem_handles.mp ha
    rw [hfree i hi] at hf
    exact absurd hf (by simp)
  have hperm := hr.handles h
  rw [hnone] at hperm
  exact hperm.eq_nil

/-- After all blocks are given back no handle holds. -/
theorem wp_freeAllRestore (hr : Releases env I K S putBack) (h : S s live w) :
    env.wp I ((freeAllRestore putBack).run s) (fun r w => S r.2 [] w) w := by
  rw [freeAllRestore]
  refine wp_getOnly (wp_then (wp_mono (hr.wp_releaseEach s.order (hr.loose h) fun _ hi => hi) ?_))
  rintro ⟨_, s'⟩ w' ⟨⟨horder, hblocks⟩, live', hk⟩
  obtain rfl : live' = [] := by
    refine hr.live_nil hk ?_
    intro i hi
    cases hf : (s'.block i).free with
    | true => rfl
    | false => exact absurd (horder ▸ hi) (hblocks i hf).2
  exact hr.wp_noteLayout (hr.holds hk) (hr.merges hk)

end Releases

/-! ## Requests -/

section Requests

variable {env : Environment A W} {I : W → Prop} {S : Known A W} {s : Areas A.width}
  {live : List (Area A.width)} {w : W}

/-- A request that may issue a handle. -/
theorem wp_issue {x : AreaM A (Area A.width)}
    (h : env.wp I (x.run.run s) (fun r w => S r.2 (granted live r.1) w) w) :
    env.wp I ((do return (← x.run).toOption :
      StateT (Areas A.width) (Dialogue A) (Option (Area A.width))).run s)
      (fun r w => S r.2 (live ++ r.1.toList) w) w := by
  refine wp_then (wp_mono h ?_)
  rintro ⟨e | area, s'⟩ w' hs
  · show S s' (live ++ []) w'
    rw [List.append_nil]
    exact hs
  · exact hs

/-- A request that issues none, and does not report how it ended. -/
theorem wp_ignore {x : AreaM A Unit} (h : env.wp I (x.run.run s) (fun r w => S r.2 live w) w) :
    env.wp I ((do
      let _ ← x.run
      return none : StateT (Areas A.width) (Dialogue A) (Option (Area A.width))).run s)
      (fun r w => S r.2 live w) w :=
  wp_then h

end Requests

end DebugLink.Areas

namespace DebugLink

/-- Something that is asked of the working areas. -/
inductive AreaRequest (w : Nat) where
  | alloc (size : Nat)
  | allocTry (size : Nat)
  | allocShrinking (preferred least : Nat)
  /-- Any handle will do, be it stale or another target's. -/
  | free (area : Area w)
  | freeRestore (area : Area w) (putBack : Bool)
  | freeAll
  | freeAllRestore (putBack : Bool)
  | setConfig (config : AreaConfig w)

namespace AreaRequest

variable {A : Arch}

/-- Serves a request; answers which handle was issued. -/
def perform : AreaRequest A.width →
    StateT (Areas A.width) (Dialogue A) (Option (Area A.width))
  | .alloc size => do return (← (Areas.alloc size).run).toOption
  | .allocTry size => do return (← (Areas.allocTry size).run).toOption
  | .allocShrinking preferred least => do
    return (← (Areas.allocShrinking preferred least).run).toOption
  | .free area => do
    let _ ← (Areas.free area).run
    return none
  | .freeRestore area putBack => do
    let _ ← (Areas.freeRestore area putBack).run
    return none
  | .freeAll => do
    Areas.freeAll
    return none
  | .freeAllRestore putBack => do
    Areas.freeAllRestore putBack
    return none
  | .setConfig config => do
    modify (·.setConfig config)
    return none

/-- The handles that hold after a request. -/
def live {w : Nat} (handles : List (Area w)) : AreaRequest w → Option (Area w) → List (Area w)
  | .alloc _, issued | .allocTry _, issued | .allocShrinking _ _, issued =>
    handles ++ issued.toList
  | .free area, _ | .freeRestore area _, _ => Areas.without handles area.id
  | .freeAll, _ | .freeAllRestore _, _ | .setConfig _, _ => []

end AreaRequest

namespace Areas

open Environment

/-- EVERY REQUEST keeps what its parts keep. -/
theorem wp_perform_of {A : Arch} {W : Type} {env : Environment A W} {I : W → Prop} {K S : Known A W}
    (hg : Grants env I S) (hr : ∀ putBack, Releases env I K S putBack)
    (closes : ∀ {s live w}, S s live w → S s.discard [] w)
    (configures : ∀ {s live w} config, S s live w → S (s.setConfig config) [] w)
    {s : Areas A.width} {live : List (Area A.width)} {w : W} (h : S s live w)
    (request : AreaRequest A.width) : env.wp I (request.perform.run s)
      (fun r w => S r.2 (request.live live r.1) w) w := by
  cases request with
  | alloc size => exact wp_issue (hg.wp_alloc h size)
  | allocTry size => exact wp_issue (hg.wp_allocTry h size)
  | allocShrinking preferred least => exact wp_issue (hg.wp_allocShrinking h preferred least)
  | free area => exact wp_ignore ((hr true).wp_freeRestore h area)
  | freeRestore area putBack => exact wp_ignore ((hr putBack).wp_freeRestore h area)
  | freeAll => exact wp_then (wp_then (wp_mono ((hr true).wp_freeAllRestore h) fun _ _ => closes))
  | freeAllRestore putBack => exact wp_then ((hr putBack).wp_freeAllRestore h)
  | setConfig config => exact configures config h

end Areas

end DebugLink
