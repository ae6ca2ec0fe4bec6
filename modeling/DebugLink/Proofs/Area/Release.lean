import DebugLink.Proofs.Area.Attempt
import DebugLink.Proofs.Area.Backed

/-!
# Release, exactly

An area is given back in the same way WHATEVER BECOMES OF ITS CONTENTS.  What was saved for it is
written over it, if it is to be; the answer decides what is reported, and nothing else.

* `GivenBack` is what the arena is like afterwards: the block has become one with its free
  neighbours (`joined_around`), and everything else was left alone.
* `Exchanged` is what the target is asked meanwhile: ONE WRITE PER AREA, of just what was saved for
  it.  When all areas are given back, the slots that are still ahead are as they were in the
  beginning (`Ahead`), so a write that fails takes nothing from those that come after it.
* `Remains.single` is why the order of the releases plays no part: of an open window of which all is
  free nothing is left but where it lies.
-/

namespace DebugLink.Areas

open Environment Dialogue

/-! ## What becomes of the arena -/

section Rows

variable {w : Nat} {s s' : Areas w} {live : List (Area w)} {base : BitVec w} {i : Nat}

/-- The handle holds, and this is its block. -/
def Names (s : Areas w) (area : Area w) (b : Block w) : Prop :=
  (∃ i, s.slotOf? area.id = some i ∧ s.block i = b) ∧ b.free = false ∧
    b.address = area.address ∧ b.size = area.size

/-- The handle of a slot in use names its block. -/
theorem names_handle (hs : Slotted s s.order) (hi : i ∈ s.order) (hf : (s.block i).free = false) :
    Names s (s.handle i) (s.block i) :=
  ⟨⟨i, slotOf?_handle hs hi hf, rfl⟩, hf, rfl, rfl⟩

/-- The area was given back: its block has become one with its free neighbours, and everything else
    was left alone. -/
structure GivenBack (s : Areas w) (live : List (Area w)) (area : Area w) (s' : Areas w) :
    Prop where
  id : s'.id = s.id
  config : s'.config = s.config
  layout : ∃ before left b right after, Names s area b ∧
    Around s.layout before left b right after ∧ s'.layout = before ++ b.over left right :: after
  others : ∀ a ∈ live, a.id ≠ area.id → StillHolds s s' a

/-- What releasing a block and joining neighbours makes of an arena. -/
theorem givenBack_release (h : Opened s live base) (hc : s.Coalesced s.order) (hi : i ∈ s.order)
    (hf : (s.block i).free = false) : GivenBack s live (s.handle i) (s.release i).merge := by
  obtain ⟨p, q, hsits⟩ := Sits.of_mem h.toSlotted hi
  have hfreed := hsits.release
  have hopen := (h.release hi hf).toTiled.merge h.nonempty
  have hapart := hc.apart
  rw [hsits.layout] at hapart
  -- its neighbours, as far as they are free
  obtain ⟨before, left, right, after, rfl, rfl, haround⟩ := exists_around hapart
  refine ⟨merge_id _, merge_config _, ⟨before, left, s.block i, right, after,
    names_handle h.toSlotted hi hf, hsits.layout ▸ haround, ?_⟩, ?_⟩
  · rw [layout_merge hfreed.slotted, hfreed.layout, ← joined_around haround hapart,
      List.append_assoc]
  · -- the handles that hold are on other slots, and joining takes no slot in use
    intro a ha hne
    obtain ⟨j, hj, hlive, rfl⟩ := mem_handles.mp (h.handles.mem_iff.mp ha)
    have hji : j ≠ i := by
      rintro rfl
      exact hne rfl
    have hkept : Untouched s (s.release i) j := .release h.toSlotted hi hj hji
    have hlive' : ((s.release i).block j).free = false := by rwa [block_eq, hkept.2]
    exact (hkept.trans (.merge hfreed.slotted hkept.1 hlive')).holds (merge_id _) h.toSlotted
      hopen.1.toSlotted hj hlive

end Rows

/-! ## What the target is asked -/

section Calls

variable {A : Arch} {s t : Areas A.width} {live areas : List (Area A.width)}
  {area : Area A.width} {base : BitVec A.width} {i : Nat} {putBack : Bool} {rest : List Nat}
  {calls : List (Exchange A)} {x : Exchange A}

/-- The call writes over an area just what was saved for it. -/
def WritesBack (s : Areas A.width) (area : Area A.width) (call : Call A) : Prop :=
  ∃ b bytes, Names s area b ∧ b.backup = some bytes ∧ bytes.length = area.size ∧
    call = .write area.address bytes

/-- What was saved for the areas is written back, for one after the other, whatever is answered; or
    there are no calls if it is not to be. -/
def Exchanged (s : Areas A.width) (putBack : Bool) (areas : List (Area A.width))
    (calls : List (Exchange A)) : Prop :=
  if putBack && s.config.backup then
    List.Forall₂ (fun area x => WritesBack s area x.call) areas calls
  else calls = []

/-- No areas, no calls. -/
theorem Exchanged.nil : Exchanged s putBack [] [] := by
  rw [Exchanged]
  split
  · exact .nil
  · rfl

/-- Nothing is to be written back. -/
theorem exchanged_none (hnot : (putBack && s.config.backup) = false) :
    Exchanged s putBack areas calls ↔ calls = [] := by
  rw [Exchanged, hnot, if_neg Bool.false_ne_true]

/-- One area more is one write more. -/
theorem Exchanged.cons (hput : (putBack && s.config.backup) = true)
    (hx : WritesBack s area x.call) (h : Exchanged s putBack areas calls) :
    Exchanged s putBack (area :: areas) (x :: calls) := by
  rw [Exchanged, if_pos hput] at h ⊢
  exact .cons hx h

/-- Putting back what was saved is one call, and it fails just if the call does. -/
theorem wp_restore_calls (h : Opened s live base) (hfirm : Firm s s.order) (hb : Backed s)
    (hi : i ∈ s.order) (hf : (s.block i).free = false)
    {Q : Except Error Unit → List (Exchange A) → Prop}
    (bare : s.config.backup = false → Q (.ok ()) calls)
    (saved : s.config.backup = true → ∀ (x : Exchange A) (r : Except Error Unit),
      WritesBack s (s.handle i) x.call → r.isOk = x.granted → Q r (calls ++ [x])) :
    (callLog A).wp (fun _ => True) (s.restore i).run Q calls := by
  rw [restore]
  cases hsaves : s.config.backup with
  | false =>
      rw [if_neg Bool.false_ne_true]
      exact bare hsaves
  | true =>
      rw [if_pos rfl]
      have hbacked := hb (s.block i) (List.mem_map_of_mem hi)
      obtain ⟨bytes, hbytes⟩ := Option.isSome_iff_exists.mp ((hbacked.saved hf).trans hsaves)
      have hlength := hbacked.fits bytes hbytes
      -- what was saved is not empty, or nothing would be written
      have hpos := (hfirm.blocks i hi).positive hf
      rw [hbytes]
      refine wp_andThen (wp_outcomeOnly (wp_writeBuffer_calls (hlength ▸ hpos)
        (hlength ▸ h.fits_of_le hi (Nat.le_refl _)) ?_))
      have hwrites : WritesBack s (s.handle i) (.write (s.block i).address bytes) :=
        ⟨s.block i, bytes, names_handle h.toSlotted hi hf, hbytes, hlength, rfl⟩
      rintro (e | _)
      · refine wp_andThen (callLog_tame.wp_note trivial ?_)
        exact saved hsaves ⟨_, .error e⟩ (.error (.ofTarget e)) hwrites rfl
      · exact saved hsaves ⟨_, .ok ()⟩ (.ok ()) hwrites rfl

/-- The rest of a release is not a call, and leads to the same whatever became of the contents. -/
theorem wp_takeBack_calls (restored : Except Error Unit)
    {Q : Except Error Unit × Areas A.width → List (Exchange A) → Prop}
    (h : Q (restored, (s.release i).merge) calls) :
    (callLog A).wp (fun _ => True) ((takeBack area i restored).run.run s) Q calls := by
  unfold takeBack
  refine wp_modify (wp_seq (callLog_tame.wp_note trivial ?_))
  refine wp_modify (wp_seq (wp_liftState (callLog_tame.wp_noteLayout trivial ?_)))
  cases restored with
  | ok _ => exact h
  | error e => exact h

/-- To give back one area is to release its block, behind one write at most. -/
theorem wp_freeRestore_calls (h : Opened s live base) (hfirm : Firm s s.order) (hb : Backed s)
    (hi : i ∈ s.order) (hf : (s.block i).free = false) (putBack : Bool) :
    (callLog A).wp (fun _ => True) ((freeRestore (s.handle i) putBack).run.run s)
      (fun r calls => r.2 = (s.release i).merge ∧ Exchanged s putBack [s.handle i] calls ∧
        r.1.isOk = calls.all Exchange.granted) [] := by
  -- released and joined, whatever the write came to
  have hend : ∀ (r : Except Error Unit) (calls : List (Exchange A)),
      Exchanged s putBack [s.handle i] calls → r.isOk = calls.all Exchange.granted →
      (callLog A).wp (fun _ => True) ((takeBack (s.handle i) i r).run.run s) (fun r calls =>
        r.2 = (s.release i).merge ∧ Exchanged s putBack [s.handle i] calls ∧
          r.1.isOk = calls.all Exchange.granted) calls :=
    fun r _ hcalls hr => wp_takeBack_calls r ⟨rfl, hcalls, hr⟩
  rw [freeRestore_eq]
  refine wp_get (wp_seq (wp_liftDialogue ?_))
  rw [lookup_handle h.toSlotted hi hf]
  cases putBack with
  | false => exact hend (.ok ()) [] ((exchanged_none rfl).mpr rfl) rfl
  | true =>
      refine wp_get (wp_seq (wp_outcome (wp_lift (wp_restore_calls h hfirm hb hi hf ?_ ?_))))
      · intro hsaves
        exact hend (.ok ()) [] ((exchanged_none (show (true && _) = false from hsaves)).mpr rfl) rfl
      · intro hsaves x r hx hr
        exact hend r [x] (.cons hsaves hx .nil) (by simp [hr])

/-! ## One after the other -/

/-- While areas are given back: the slots that are still ahead are as they were in the beginning. -/
structure Ahead (s t : Areas A.width) (rest : List Nat) : Prop where
  config : t.config = s.config
  size : t.slots.size = s.slots.size
  slot : ∀ i ∈ rest, t.slot i = s.slot i

/-- Slots that come later are ahead as well. -/
theorem Ahead.tail (h : Ahead s t (i :: rest)) : Ahead s t rest :=
  ⟨h.config, h.size, fun j hj => h.slot j (List.mem_cons_of_mem i hj)⟩

/-- Giving back the first of them leaves the others as they were. -/
theorem Ahead.release (h : Ahead s t (i :: rest)) (hlt : i < s.slots.size) (hi : i ∉ rest) :
    Ahead s (t.release i) rest := by
  refine ⟨h.config, (size_release t i).trans h.size, fun j hj => ?_⟩
  have hji : j ≠ i := fun heq => hi (heq ▸ hj)
  rw [slot_release_other (h.size ▸ hlt) hji, h.tail.slot j hj]

/-- Giving back many areas asks for the write of each of them, in turn. -/
theorem wp_releaseEach_calls (h : Opened s live base) (hfirm : Firm s s.order) (hb : Backed s)
    (putBack : Bool) (rest : List Nat) : ∀ {t : Areas A.width} {calls : List (Exchange A)},
      Ahead s t rest → rest.Nodup → (∀ i ∈ rest, i ∈ s.order) →
      (callLog A).wp (fun _ => True) ((releaseEach putBack rest).run t)
        (fun _ calls' => ∃ new, calls' = calls ++ new ∧
          Exchanged s putBack (s.handles rest) new) calls := by
  induction rest with
  | nil => exact fun _ _ _ => ⟨[], (List.append_nil _).symm, .nil⟩
  | cons i rest ih =>
      intro t calls hahead hnodup hsub
      obtain ⟨hnot, hnodup⟩ := List.nodup_cons.mp hnodup
      have hi : i ∈ s.order := hsub i List.mem_cons_self
      have hsub : ∀ j ∈ rest, j ∈ s.order := fun j hj => hsub j (List.mem_cons_of_mem i hj)
      have hblock : t.block i = s.block i := by
        rw [block_eq, hahead.slot i List.mem_cons_self, block_eq]
      have hreleased := hahead.release (h.lt_size hi) hnot
      rw [releaseEach]
      refine wp_getOnly ?_
      rw [hblock]
      cases hf : (s.block i).free with
      | true =>
          rw [if_neg (by simp), handles_cons_free hf]
          exact ih hahead.tail hnodup hsub
      | false =>
          rw [if_pos (by simp), handles_cons_live hf]
          -- nothing is to be written back: no call for any of them
          have hnone : ∀ {calls : List (Exchange A)}, (putBack && s.config.backup) = false →
              (callLog A).wp (fun _ => True) ((releaseEach putBack rest).run (t.release i))
                (fun _ calls' => ∃ new, calls' = calls ++ new ∧
                  Exchanged s putBack (s.handle i :: s.handles rest) new) calls := by
            intro calls hnot
            refine wp_mono (ih hreleased hnodup hsub) ?_
            rintro _ _ ⟨new, rfl, hnew⟩
            exact ⟨new, rfl, (exchanged_none hnot).mpr ((exchanged_none hnot).mp hnew)⟩
          cases putBack with
          | false => exact hnone rfl
          | true =>
              -- the slot is ahead, so what is written is what was saved in the beginning
              have hrestore : t.restore (A := A) i = s.restore i := by
                rw [restore, restore, hahead.config, hblock]
              refine wp_getOnly (wp_then (wp_liftOnly ?_))
              rw [hrestore]
              refine wp_restore_calls h hfirm hb hi hf hnone fun hsaves x _ hx _ => ?_
              refine wp_mono (ih hreleased hnodup hsub) ?_
              rintro _ _ ⟨new, rfl, hnew⟩
              exact ⟨x :: new, (List.append_cons calls x new).symm, .cons hsaves hx hnew⟩

/-- So does giving back all of them. -/
theorem wp_freeAllRestore_calls (h : Opened s live base) (hfirm : Firm s s.order) (hb : Backed s)
    (putBack : Bool) : (callLog A).wp (fun _ => True) ((freeAllRestore putBack).run s)
      (fun _ calls => Exchanged s putBack (s.handles s.order) calls) [] := by
  rw [freeAllRestore]
  have hahead : Ahead s s s.order := ⟨rfl, rfl, fun _ _ => rfl⟩
  refine wp_getOnly (wp_then (wp_mono
    (wp_releaseEach_calls h hfirm hb putBack s.order hahead h.nodup fun _ hi => hi) ?_))
  rintro ⟨_, s'⟩ _ ⟨new, rfl, hnew⟩
  exact callLog_tame.wp_noteLayout trivial hnew

end Calls

/-! ## Every release -/

section Releases

variable {A : Arch} {s s' : Areas A.width} {live : List (Area A.width)} {mmu mmu' : Bool}
  {base : BitVec A.width}

/-- What is left of an open window when all is given back. -/
theorem Remains.single (h : Remains s s') (hs : Settled s' [] mmu')
    (hbase : s.shown.head?.map (·.address) = some base) : ∃ kept,
    s'.layout =
      [{ address := base, size := s.config.usable, free := true, backup := kept }] := by
  obtain ⟨hopen, hcoal⟩ := hs.opened_at (h.base.trans hbase)
  rw [← h.config]
  refine hopen.layout_free hcoal fun i hi => ?_
  cases hf : (s'.block i).free with
  | true => rfl
  | false =>
      have hmem := hopen.handles.mem_iff.mpr (mem_handles.mpr ⟨i, hi, hf, rfl⟩)
      exact absurd hmem List.not_mem_nil

/-- What becomes of an open window if all of its areas are given back at once, and what the target
    is asked for that: one write per area, whatever it answers.  To give them back one after the
    other, in any order, leads to the same. -/
structure AllGivenBack (s : Areas A.width) (live : List (Area A.width)) (mmu putBack : Bool)
    (base : BitVec A.width) (calls : List (Exchange A)) (s' : Areas A.width) : Prop where
  config : s'.config = s.config
  layout : ∃ kept, s'.layout =
    [{ address := base, size := s.config.usable, free := true, backup := kept }]
  writes : ∃ areas : List (Area A.width), areas.Perm live ∧ Exchanged s putBack areas calls
  anyOrder : ∀ (given : List (Area A.width)) (s'' : Areas A.width) (mmu'' : Bool),
    given.Perm live → Released A s mmu given s'' mmu'' → s''.shown = s'.shown

/-- RELEASE, EXACTLY.  To give back one area leads to the same arena for both values of `putBack`
    and whatever the target answers, and fails just if the write does. -/
theorem Reachable.release_exact (h : Reachable A s live mmu) :
    (∀ area ∈ live, ∃ s', GivenBack s live area s' ∧ ∀ putBack log r,
      ((freeRestore area putBack).run.run s).Path log r →
        r.2 = s' ∧ Exchanged s putBack [area] log.exchanges ∧
          r.1.isOk = log.exchanges.all Exchange.granted) ∧
    (s.opened = true → ∃ base, s.config.window? mmu = some base ∧ ∀ putBack log s',
      ((freeAllRestore putBack).run s).Path log ((), s') →
        AllGivenBack s live mmu putBack base log.exchanges s') := by
  have hfirm := h.twins.left
  have hbacked := h.backed
  refine ⟨fun area harea => ?_, fun ho => ?_⟩
  · obtain ⟨i, hi, hf, rfl⟩ := mem_handles.mp (h.settled.standing.handles.mem_iff.mp harea)
    have ho : s.opened = true := by
      simpa [Areas.opened] using List.ne_nil_of_mem hi
    obtain ⟨base, -, hopen, hcoal⟩ := h.settled.opened ho
    refine ⟨_, givenBack_release hopen hcoal hi hf, fun putBack log r hpath => ?_⟩
    exact path_callLog (wp_freeRestore_calls hopen hfirm hbacked hi hf putBack) hpath
  · obtain ⟨base, hw, hopen, hcoal⟩ := h.settled.opened ho
    refine ⟨base, hw, fun putBack log s' hpath => ?_⟩
    have hbase : s.shown.head?.map (·.address) = some base := by
      rw [head_shown, (hopen.layout_laid hcoal hw).base, hw]
    obtain ⟨mmu', hs', hremains⟩ := path_anyTarget
      ((remains_releases s putBack).wp_freeAllRestore ⟨h.settled, .refl s⟩) hpath
    obtain ⟨kept, hlayout⟩ := hremains.single hs' hbase
    have hcalls : Exchanged s putBack (s.handles s.order) log.exchanges :=
      path_callLog (Q := fun _ calls => Exchanged s putBack (s.handles s.order) calls)
        (wp_freeAllRestore_calls hopen hfirm hbacked putBack) hpath
    refine ⟨hremains.config, ⟨kept, hlayout⟩, ⟨_, hopen.handles.symm, hcalls⟩, ?_⟩
    intro given s'' mmu'' hgiven hreleased
    rw [← List.append_nil given] at hgiven
    -- one after the other: nothing is left that holds, so all is free again
    obtain ⟨live'', h'', hperm, hremains''⟩ := hreleased.reachable h (.refl s) hgiven
    obtain rfl := hperm.symm.eq_nil
    obtain ⟨kept'', hlayout''⟩ := hremains''.single h''.settled hbase
    rw [shown, shown, hlayout, hlayout'']
    rfl

/-- A target like `plainAnswer` to which nothing can be written. -/
def sealedAnswer {A : Arch} : (op : Op A) → op.Answer
  | .call (.write _ _) => .error .nonFatal
  | op => plainAnswer op

/-- The area behind a gap is given back, and its contents are to be put back. -/
abbrev gapRelease :
    Dialogue (plainCore 32) (Except Error Unit × Areas (plainCore 32).width) :=
  (freeRestore (A := plainCore 32) (gapHandle 3 0x1030 16) true).run.run gapOfTwo.1

/-- All areas around the gap are given back at once. -/
abbrev gapReleaseAll : Dialogue (plainCore 32) (Unit × Areas (plainCore 32).width) :=
  (freeAllRestore (A := plainCore 32) true).run gapOfTwo.1

/-- Of two targets, one refuses what is written.  There the release fails, and leaves what it leaves
    on the other. -/
theorem Reachable.release_exact_gap :
    (answeredEnd sealedAnswer gapRelease).1.isOk = false ∧
      (answeredEnd plainAnswer gapRelease).1.isOk = true ∧
      (answeredEnd sealedAnswer gapRelease).2 = (answeredEnd plainAnswer gapRelease).2 ∧
      GivenBack gapOfTwo.1 gapOfTwo.2 (gapHandle 3 0x1030 16)
        (answeredEnd sealedAnswer gapRelease).2 ∧
      AllGivenBack gapOfTwo.1 gapOfTwo.2 false true 0x1000
        (answeredLog sealedAnswer gapReleaseAll).exchanges
        (answeredEnd sealedAnswer gapReleaseAll).2 := by
  have hreachable : Reachable (plainCore 32) gapOfTwo.1 gapOfTwo.2 false :=
    plainPast_reachable _ (.new 1 gapStart.config false)
  obtain ⟨hone, hall⟩ := Reachable.release_exact hreachable
  obtain ⟨s', hgiven, hpaths⟩ := hone (gapHandle 3 0x1030 16) (by decide +kernel)
  obtain ⟨hsealed, -, -⟩ := hpaths true _ _ (answered_path sealedAnswer gapRelease)
  obtain ⟨hplain, -, -⟩ := hpaths true _ _ (answered_path plainAnswer gapRelease)
  obtain ⟨base, hbase, hends⟩ := hall (by decide +kernel)
  obtain rfl : 0x1000 = base := by
    have hwindow : gapOfTwo.1.config.window? false = some 0x1000 := by decide +kernel
    exact Option.some.inj (hwindow.symm.trans hbase)
  refine ⟨by decide +kernel, by decide +kernel, hsealed.trans hplain.symm, ?_, ?_⟩
  · rw [hsealed]
    exact hgiven
  · exact hends true _ _ (answered_path sealedAnswer gapReleaseAll)

end Releases

end DebugLink.Areas
