import DebugLink.Proofs.Area.History
import DebugLink.Proofs.Area.Row
import DebugLink.Proofs.Exchanges

/-!
# An attempt to get an area, path by path

`allocTry` makes few choices, and this file lists them all: where an attempt ends, in which state,
and what was exchanged with the target by then.

* `Tried` says it of the whole attempt.  The request is too large to be rounded up; or the window is
  open; or it has to be opened first, WHICH MAY FAIL IN TWO WAYS or lead to `openAt`.
* `Served` says it of the second half, in an open window: no block is large enough; or one is cut
  and handed out, with or without a read before that; or that read is refused.

Whatever is claimed of an attempt is claimed of these cases (`path_allocTry`, `path_serve`).
-/

namespace DebugLink

open Environment Dialogue

/-- The window can be opened there if the memory management unit is on, or off. -/
def AreaConfig.Opens {w : Nat} (c : AreaConfig w) (on : Bool) (base : BitVec w) : Prop :=
  c.window? on = some base ∧ Arch.Fits base c.usable

/-- The report of which window is opened. -/
def Note.window (on : Bool) (base : Nat) : Note :=
  if on then .virtualWindow base else .physicalWindow base

/-- A refused access is never taken for a lack of room. -/
theorem Error.ofTarget_ne_full (e : TargetError) (requested available : Nat) :
    Error.ofTarget e ≠ .resourceNotAvailable requested available := by
  cases e <;> exact nofun

namespace Areas

variable {A : Arch} {s : Areas A.width} {live : List (Area A.width)} {base : BitVec A.width}
  {i n size : Nat} {log : Transcript A} {r : Except Error (Area A.width) × Areas A.width}

/-! ## Any target -/

/-- Any target can give any answers. -/
theorem anyTarget_plays (log : Transcript A) :
    ∀ mmu : Bool, ∃ mmu', (anyTarget A).Plays mmu log mmu' := by
  induction log with
  | nil => exact fun mmu => ⟨mmu, .nil mmu⟩
  | cons event log ih =>
      intro mmu
      obtain ⟨next, hnext⟩ := anyTarget_answers mmu event.op event.answer
      obtain ⟨mmu', hplays⟩ := ih next
      exact ⟨mmu', .event event hnext hplays⟩

/-- What a weakest precondition for any target says of the end of a path. -/
theorem path_anyTarget {α : Type} {Q : α → Bool → Prop} {d : Dialogue A α} {x : α} {mmu : Bool}
    (h : (anyTarget A).wp Anything d Q mmu) (hpath : d.Path log x) : ∃ mmu', Q x mmu' := by
  obtain ⟨mmu', hplays⟩ := anyTarget_plays log mmu
  refine ⟨mmu', anyTarget_tame.reached (fun _ _ _ => trivial) h ?_⟩
  exact reaches_iff_plays.mpr ⟨log, hpath, hplays⟩

/-- Every path of a request leads to something reachable. -/
theorem Reachable.of_path {mmu : Bool} (h : Reachable A s live mmu)
    (request : AreaRequest A.width) {issued : Option (Area A.width)} {s' : Areas A.width}
    (hpath : (request.perform.run s).Path log (issued, s')) :
    ∃ mmu', Reachable A s' (request.live live issued) mmu' := by
  obtain ⟨mmu', hplays⟩ := anyTarget_plays log mmu
  exact ⟨mmu', h.request request (reaches_iff_plays.mpr ⟨log, hpath, hplays⟩)⟩

/-! ## Sizes -/

/-- The size of the block that a request needs, in whole words and at least one. -/
def wholeWords (size : Nat) : Nat :=
  (max size 1 + 3) / 4 * 4

/-- Requests are rounded up, provided that the sum has 32 bits. -/
theorem roundUp?_eq (size : Nat) :
    roundUp? size = if wholeWords size < 2 ^ 32 then some (wholeWords size) else none := by
  have hiff : max size 1 + 3 < 0x100000000 ↔ wholeWords size < 2 ^ 32 := by
    rw [wholeWords]
    omega
  rw [roundUp?]
  by_cases h : wholeWords size < 2 ^ 32
  · rw [if_pos h, if_pos (hiff.mpr h), wholeWords]
  · rw [if_neg h, if_neg fun h' => h (hiff.mp h')]

theorem roundUp?_some (h : roundUp? size = some n) : n = wholeWords size ∧ n < 2 ^ 32 := by
  rw [roundUp?_eq] at h
  split at h
  · next hlt =>
    obtain rfl := Option.some.inj h
    exact ⟨rfl, hlt⟩
  · exact absurd h (by simp)

theorem roundUp?_none (h : roundUp? size = none) : 2 ^ 32 ≤ wholeWords size := by
  rw [roundUp?_eq] at h
  split at h
  · exact absurd h (by simp)
  · next hlt => exact Nat.le_of_not_lt hlt

/-! ## In an open window -/

/-- Slot `i` after its block was cut to `n` bytes, with nothing saved. -/
def carved {w : Nat} (s : Areas w) (i n : Nat) : Areas w :=
  (s.split i n).modifyBlock i ({ · with backup := none })

/-- Slot `i` after its block was cut to `n` bytes, saved, and handed out. -/
def issued {w : Nat} (s : Areas w) (i n : Nat) (bytes : List UInt8) : Areas w :=
  ((s.carved i n).modifyBlock i ({ · with backup := some bytes })).handOut i

/-- How a request for `n` bytes ends in an open window, and what is exchanged for it. -/
inductive Served (s : Areas A.width) (n : Nat) :
    List (Exchange A) → Except Error (Area A.width) × Areas A.width → Prop
  /-- No block is large enough. -/
  | full : s.firstFit? n = none → Served s n [] (.error (.resourceNotAvailable n s.available), s)
  | bare {i : Nat} : s.firstFit? n = some i → s.config.backup = false →
      Served s n [] (.ok (((s.split i n).handOut i).handle i), (s.split i n).handOut i)
  | saved {i : Nat} (bytes : Bytes n) : s.firstFit? n = some i → s.config.backup = true →
      Served s n [⟨.read (s.block i).address n, .ok bytes⟩]
        (.ok ((s.issued i n bytes.val).handle i), s.issued i n bytes.val)
  /-- What is there could not be saved. -/
  | unread {i : Nat} (e : TargetError) : s.firstFit? n = some i → s.config.backup = true →
      Served s n [⟨.read (s.block i).address n, .error e⟩]
        (.error (.ofTarget e), (s.carved i n).merge)

/-- Handing out is not a call. -/
theorem wp_handOver_calls {calls : List (Exchange A)}
    {Q : Except Error (Area A.width) × Areas A.width → List (Exchange A) → Prop}
    (hsize : ((s.handOut i).block i).size = n)
    (h : Q (.ok ((s.handOut i).handle i), s.handOut i) calls) :
    (callLog A).wp (fun _ => True) ((handOver i n).run.run s) Q calls := by
  refine wp_modify (wp_get (wp_seq (callLog_tame.wp_note trivial ?_)))
  refine wp_seq (wp_liftState (callLog_tame.wp_noteLayout trivial ?_))
  show Q (.ok { (s.handOut i).handle i with size := n }, s.handOut i) calls
  rw [← hsize]
  exact h

/-- Saving is one call. -/
theorem wp_saveBackup_calls {calls : List (Exchange A)} {b : Block A.width}
    {Q : Except Error Unit × Areas A.width → List (Exchange A) → Prop} (hb : s.block i = b)
    (hpos : 0 < b.size) (hfits : Arch.Fits b.address b.size)
    (ok : ∀ bytes : Bytes b.size, Q (.ok (),
      (s.modifyBlock i ({ · with backup := none })).modifyBlock i
        ({ · with backup := some bytes.val })) (calls ++ [⟨.read b.address b.size, .ok bytes⟩]))
    (err : ∀ e, Q (.error (.ofTarget e), (s.modifyBlock i ({ · with backup := none })).merge)
      (calls ++ [⟨.read b.address b.size, .error e⟩])) :
    (callLog A).wp (fun _ => True) ((saveBackup i).run.run s) Q calls := by
  rw [saveBackup]
  refine wp_get (wp_modify (wp_seq (wp_outcome (wp_lift ?_))))
  rw [hb]
  refine wp_readBuffer_calls hpos hfits ?_
  rintro (e | bytes)
  · exact err e
  · exact ok bytes

/-- A block inside the window lies inside the address space. -/
theorem Opened.fits_of_le (h : Opened s live base) (hi : i ∈ s.order) (hn : n ≤ (s.block i).size) :
    Arch.Fits (s.block i).address n := by
  have hin := h.tiles.inside hi
  have hend := h.fits
  rcases Nat.eq_zero_or_pos n with rfl | hpos
  · exact Or.inl rfl
  · refine Or.inr (le_top_iff.mpr ?_)
    omega

theorem wp_serve_calls (h : Opened s live base) (hpos : 0 < n) :
    (callLog A).wp (fun _ => True) ((serve n).run.run s) (fun r calls => Served s n calls r)
      [] := by
  rw [serve]
  refine wp_get ?_
  cases hi : s.firstFit? n with
  | none => exact .full hi
  | some i =>
      -- the first block that fits is cut; what follows depends on the backup alone
      obtain ⟨hmem, hfree, hsize⟩ := firstFit_spec hi
      obtain ⟨before, after, hsits⟩ := Sits.of_mem h.toSlotted hmem
      have hcut := hsits.split hsize
      refine wp_modify (wp_get ?_)
      rw [split_config]
      cases hb : s.config.backup with
      | false =>
          rw [if_neg Bool.false_ne_true]
          exact wp_handOver_calls (congrArg Block.size hcut.handOut.block) (.bare hi hb)
      | true =>
          rw [if_pos rfl]
          refine wp_seq (wp_saveBackup_calls hcut.block hpos (h.fits_of_le hmem hsize) ?_ ?_)
          · intro bytes
            have hlast := ((hcut.modifyBlock ({ · with backup := none })).modifyBlock
              ({ · with backup := some bytes.val })).handOut
            exact wp_handOver_calls (congrArg Block.size hlast.block) (.saved bytes hi hb)
          · intro e
            exact .unread e hi hb

/-- EVERY PATH OF A REQUEST in an open window. -/
theorem path_serve (h : Opened s live base) (hpos : 0 < n)
    (hpath : ((serve n).run.run s).Path log r) : Served s n log.exchanges r :=
  path_callLog (wp_serve_calls h hpos) hpath

/-! ## Opening the window first -/

/-- The memory management unit is asked about, or the target cannot tell. -/
theorem path_mmuOn {answer : Except Error Bool} (h : (mmuOn (A := A)).run.Path log answer) :
    log = [⟨.feature .mmu, false⟩] ∧ answer = .ok false ∨
      ∃ on, log = [⟨.feature .mmu, true⟩, ⟨.call .mmuEnabled, on⟩] ∧
        answer = on.mapError .ofTarget := by
  obtain ⟨supported, rest, rfl, hrest⟩ := path_ask.mp h
  cases supported with
  | false =>
      obtain ⟨rfl, rfl⟩ := path_done.mp hrest
      exact Or.inl ⟨rfl, rfl⟩
  | true =>
      obtain ⟨on, last, rfl, hlast⟩ := path_ask.mp hrest
      refine Or.inr ⟨on, ?_⟩
      cases on with
      | error e =>
          obtain ⟨rfl, rfl⟩ := path_done.mp hlast
          exact ⟨rfl, rfl⟩
      | ok on =>
          obtain ⟨rfl, rfl⟩ := path_done.mp hlast
          exact ⟨rfl, rfl⟩

/-- Every way in which opening the window can end. -/
theorem path_openWindow {answer : Except Error Unit × Areas A.width}
    (h : ((openWindow n).run.run s).Path log answer) :
    (∃ e, (mmuOn (A := A)).run.Path log (.error e) ∧ answer = (.error e, s)) ∨
    (∃ on seen more, log = seen ++ more ∧ (mmuOn (A := A)).run.Path seen (.ok on) ∧
      (∀ base, ¬s.config.Opens on base) ∧ more.exchanges = [] ∧
      answer = (.error (.resourceNotAvailable n 0), s)) ∨
    ∃ on base seen, log = seen ++ [⟨.note (.window on base.toNat), ()⟩] ∧
      (mmuOn (A := A)).run.Path seen (.ok on) ∧ s.config.Opens on base ∧
      answer = (.ok (), s.openAt base) := by
  rw [openWindow] at h
  rcases path_seq h with ⟨seen, more, on, s', rfl, hseen, hmore⟩ | ⟨e, s', rfl, hseen⟩
  · obtain ⟨_, heq, hon⟩ := path_lift.mp hseen
    cases heq
    refine Or.inr ?_
    replace hmore := path_get.mp hmore
    dsimp only at hmore
    cases hw : s.config.window? on with
    | none =>
        rw [hw] at hmore
        obtain ⟨_, rest, rfl, hrest⟩ := path_ask.mp hmore
        obtain ⟨rfl, rfl⟩ := path_done.mp hrest
        refine Or.inl ⟨on, seen, _, rfl, hon, ?_, rfl, rfl⟩
        rintro base ⟨hbase, -⟩
        rw [hw] at hbase
        exact absurd hbase (by simp)
    | some base =>
        rw [hw] at hmore
        obtain ⟨_, rest, rfl, hrest⟩ := path_ask.mp hmore
        -- there is a base, but the window must not wrap around
        by_cases hfits : Arch.Fits base s.config.usable
        · simp only [if_pos hfits] at hrest
          obtain ⟨rfl, rfl⟩ := path_done.mp hrest
          exact Or.inr ⟨on, base, seen, rfl, hon, ⟨hw, hfits⟩, rfl⟩
        · simp only [if_neg hfits] at hrest
          obtain ⟨_, last, rfl, hlast⟩ := path_ask.mp hrest
          obtain ⟨rfl, rfl⟩ := path_done.mp hlast
          refine Or.inl ⟨on, seen, _, rfl, hon, ?_, rfl, rfl⟩
          rintro base' ⟨hbase, hfits'⟩
          obtain rfl := Option.some.inj (hbase.symm.trans hw)
          exact hfits hfits'
  · obtain ⟨_, heq, he⟩ := path_lift.mp hseen
    cases heq
    exact Or.inl ⟨e, he, rfl⟩

/-! ## The whole attempt -/

/-- How an attempt to get an area goes, and how it ends. -/
inductive Tried (s : Areas A.width) (size : Nat) :
    Transcript A → Except Error (Area A.width) × Areas A.width → Prop
  /-- The size cannot be rounded up. -/
  | overflow : roundUp? size = none →
      Tried s size [] (.error (.resourceNotAvailable size s.available), s)
  /-- The window is open already. -/
  | opened {n : Nat} {log : Transcript A} {r : Except Error (Area A.width) × Areas A.width} :
      roundUp? size = some n → s.opened = true → ((serve n).run.run s).Path log r →
      Tried s size log r
  /-- The memory management unit could not be asked about. -/
  | unlearned {n : Nat} {seen : Transcript A} {e : Error} : roundUp? size = some n →
      s.opened = false → (mmuOn (A := A)).run.Path seen (.error e) → Tried s size seen (.error e, s)
  /-- The window cannot be opened. -/
  | unusable {n : Nat} {on : Bool} {seen more : Transcript A} : roundUp? size = some n →
      s.opened = false → (mmuOn (A := A)).run.Path seen (.ok on) →
      (∀ base, ¬s.config.Opens on base) → more.exchanges = [] →
      Tried s size (seen ++ more) (.error (.resourceNotAvailable n 0), s)
  /-- The window is opened. -/
  | opens {n : Nat} {on : Bool} {base : BitVec A.width} {seen more : Transcript A}
      {r : Except Error (Area A.width) × Areas A.width} : roundUp? size = some n →
      s.opened = false → (mmuOn (A := A)).run.Path seen (.ok on) → s.config.Opens on base →
      ((serve n).run.run (s.openAt base)).Path more r →
      Tried s size (seen ++ [⟨.note (.window on base.toNat), ()⟩] ++ more) r

/-- EVERY PATH OF AN ATTEMPT. -/
theorem path_allocTry (h : ((allocTry size).run.run s).Path log r) : Tried s size log r := by
  rw [allocTry_eq] at h
  cases hn : roundUp? size with
  | none =>
      rw [hn] at h
      obtain ⟨rfl, rfl⟩ := path_done.mp h
      exact .overflow hn
  | some n =>
      rw [hn] at h
      replace h := path_get.mp h
      cases ho : s.opened with
      | true =>
          rw [ho] at h
          exact .opened hn ho h
      | false =>
          rw [ho] at h
          rcases path_seq h with ⟨seen, more, _, s', rfl, hopen, hmore⟩ | ⟨e, s', rfl, hopen⟩
          · -- the window was opened: the other two ends have failed
            rcases path_openWindow hopen with ⟨_, _, heq⟩ | ⟨_, _, _, _, _, _, _, heq⟩ |
              ⟨on, base, seen, rfl, hseen, hopens, heq⟩
            · cases heq
            · cases heq
            · cases heq
              exact .opens hn ho hseen hopens hmore
          · rcases path_openWindow hopen with ⟨_, hseen, heq⟩ |
              ⟨on, seen, more, rfl, hseen, hunusable, hmore, heq⟩ | ⟨_, _, _, _, _, _, heq⟩
            · cases heq
              exact .unlearned hn ho hseen
            · cases heq
              exact .unusable hn ho hseen hunusable hmore
            · cases heq

/-! ## A path -/

section Sample

/-- How a dialogue ends that is always answered like that. -/
def answeredEnd {A : Arch} {α : Type} (answer : (op : Op A) → op.Answer) : Dialogue A α → α
  | .done x => x
  | .ask op next => answeredEnd answer (next (answer op))

/-- What is asked of it on the way. -/
def answeredLog {A : Arch} {α : Type} (answer : (op : Op A) → op.Answer) :
    Dialogue A α → Transcript A
  | .done _ => []
  | .ask op next => ⟨op, answer op⟩ :: answeredLog answer (next (answer op))

theorem answered_path {A : Arch} {α : Type} (answer : (op : Op A) → op.Answer)
    (d : Dialogue A α) : d.Path (answeredLog answer d) (answeredEnd answer d) := by
  induction d with
  | done x => exact .done x
  | ask op next ih => exact .ask _ (ih _)

end Sample

end Areas

end DebugLink
