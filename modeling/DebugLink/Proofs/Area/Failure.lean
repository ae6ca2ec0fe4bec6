import DebugLink.Proofs.Area.Retry

/-!
# A failed request does not show

Whatever a request for an area fails for, and wherever it has got to by then, what it leaves is as
good as what it found: THE CUT IS UNDONE.

* `joined_cut` is the heart.  A block that was cut, and could not be saved, is joined with what was
  left over of it; and with nothing else, since no free block had a free neighbour before.
* `Failed` says where a request that fails has got to: it may have opened the window (`Onward`), and
  it may have undone a cut in it (`Undone`).  One attempt after the other, it stays so.
* `Unseen` is what an onlooker makes of that, now and later.
-/

namespace DebugLink

open Dialogue

variable {A : Arch}

/-- A look at the target, which changes nothing there. -/
def Exchange.Looks (x : Exchange A) : Prop :=
  x.call = .mmuEnabled ∨ ∃ a n, x.call = .read a n

namespace Areas

section Rows

variable {w : Nat} {s s' : Areas w} {row row' before after : List (Block w)} {b : Block w}
  {i n : Nat}

/-- The same row, except that a free block may have lost what was saved for it. -/
def Forgets (row row' : List (Block w)) : Prop :=
  row' = row ∨ ∃ before b after, row = before ++ b :: after ∧ b.free = true ∧
    row' = before ++ { b with backup := none } :: after

/-- What was forgotten does not show. -/
theorem Forgets.shown (h : Forgets row row') : row'.map Block.shown = row.map Block.shown := by
  rcases h with rfl | ⟨before, b, after, rfl, hf, rfl⟩
  · rfl
  · rw [List.map_append, List.map_append, List.map_cons, List.map_cons, Block.shown_backup hf]

/-- What is left over of a block that was cut is joined with it again. -/
theorem joined_cut (h : (before ++ b :: after).IsChain Block.Apart) (hf : b.free = true)
    (hn : n ≤ b.size) :
    joined (before ++ { b with size := n, backup := none } :: (leftOver n b ++ after)) =
      before ++ { b with backup := none } :: after := by
  obtain ⟨hbefore, hbehind, hmiddle⟩ := List.isChain_append.mp h
  obtain ⟨hhead, hafter⟩ := List.isChain_cons.mp hbehind
  have hfree : ∀ c ∈ leftOver n b, c.free = true := by
    intro c hc
    rw [(mem_leftOver hc).2]
  -- the free rest is taken in again, and what lies behind it is not free
  have hjoin := joined_cons_right (a := { b with size := n, backup := none }) hf
    (length_leftOver n b) hfree hafter fun c hc => (hhead c hc).live_right hf
  rw [joined_append, hjoin]
  · rw [sum_leftOver hn, ite_self]
  · refine List.isChain_append.mpr ⟨hbefore, .singleton _, ?_⟩
    rintro c hc d hd
    obtain rfl := Option.some.inj hd
    exact hmiddle c hc b rfl

/-- Between the two, a block was cut and joined again; what is not free was left alone. -/
structure Undone (s s' : Areas w) : Prop where
  id : s'.id = s.id
  config : s'.config = s.config
  layout : Forgets s.layout s'.layout
  live : ∀ j ∈ s.order, (s.block j).free = false → Untouched s s' j

/-- Nothing was done. -/
theorem Undone.refl (s : Areas w) : Undone s s :=
  ⟨rfl, rfl, Or.inl rfl, fun _ hj _ => ⟨hj, rfl⟩⟩

/-- A BLOCK THAT COULD NOT BE SAVED is as it was before. -/
theorem undone_carved (hs : Slotted s s.order) (hc : s.Coalesced s.order)
    (hi : s.firstFit? n = some i) : Undone s (s.carved i n).merge := by
  obtain ⟨hmem, hf, hn⟩ := firstFit_spec hi
  obtain ⟨before, after, hsits⟩ := Sits.of_mem hs hmem
  have hcut := hsits.split hn
  have hcarved : Sits (s.carved i n) i before { s.block i with size := n, backup := none }
      (leftOver n (s.block i) ++ after) := hcut.modifyBlock _
  refine ⟨?_, ?_, Or.inr ⟨before, s.block i, after, hsits.layout, hf, ?_⟩, ?_⟩
  · rw [merge_id]
    exact split_id s i n
  · rw [merge_config]
    exact split_config s i n
  · rw [layout_merge hcarved.slotted, hcarved.layout]
    exact joined_cut (hsits.layout ▸ hc.apart) hf hn
  · -- a block in use was neither cut nor joined
    intro j hj hlive
    have hne : j ≠ i := by
      rintro rfl
      rw [hf] at hlive
      exact absurd hlive (by simp)
    have hsplit : Untouched s (s.split i n) j := .split hs hmem hj hne
    have hkept : Untouched s (s.carved i n) j :=
      hsplit.trans (.modifyBlock hcut.slotted hcut.mem hsplit.1 hne)
    refine hkept.trans (.merge hcarved.slotted hkept.1 ?_)
    rwa [block_eq, hkept.2]

end Rows

/-! ## How far a request gets -/

section Paths

variable {s s' t : Areas A.width} {live : List (Area A.width)} {mmu : Bool}
  {base : BitVec A.width} {n size : Nat} {log log' l₁ l₂ : Transcript A} {e : Error}

/-- On the way the window was opened, or nothing happened to it. -/
inductive Onward (s : Areas A.width) (log : Transcript A) : Areas A.width → Prop
  | stay : Onward s log s
  | opens {on : Bool} {base : BitVec A.width} {asked : Transcript A} : s.opened = false →
      (mmuOn (A := A)).run.Path asked (.ok on) → s.config.Opens on base →
      asked ++ [⟨.note (.window on base.toNat), ()⟩] <:+: log → Onward s log (s.openAt base)

/-- What was seen on the way is seen in a longer transcript. -/
theorem Onward.mono (h : Onward s log t) (hsub : log <:+: log') : Onward s log' t := by
  cases h with
  | stay => exact .stay
  | opens ho hasked hopens hin => exact .opens ho hasked hopens (hin.trans hsub)

/-- The window is opened once. -/
theorem Onward.trans (h : Onward s l₁ t) (h' : Onward t l₂ s') : Onward s (l₁ ++ l₂) s' := by
  cases h with
  | stay => exact h'.mono (List.suffix_append l₁ l₂).isInfix
  | opens ho hasked hopens hin =>
      cases h' with
      | stay => exact .opens ho hasked hopens (hin.trans (List.prefix_append l₁ l₂).isInfix)
      | opens ho' => exact absurd (ho'.symm.trans (opened_openAt s _)) (by simp)

/-- How far a request has got that fails: it has only looked, and whatever it cut, it has undone.
    If it is said that there is no room, nothing was cut. -/
structure Failed (s : Areas A.width) (log : Transcript A) (e : Error) (s' : Areas A.width) :
    Prop where
  looks : ∀ x ∈ log.exchanges, x.Looks
  onward : ∃ t, Onward s log t ∧ Undone t s' ∧ (s' = t ∨ ∃ e', e = .ofTarget e')

/-- It said that there is no room. -/
theorem Failed.full {requested available : Nat}
    (h : Failed s log (.resourceNotAvailable requested available) s') : Onward s log s' := by
  obtain ⟨-, t, honward, -, rfl | ⟨e', he⟩⟩ := h
  · exact honward
  · exact absurd he.symm (Error.ofTarget_ne_full e' requested available)

/-- It goes on and fails. -/
theorem Failed.after (hlooks : ∀ x ∈ l₁.exchanges, x.Looks) (honward : Onward s l₁ t)
    (h : Failed t l₂ e s') : Failed s (l₁ ++ l₂) e s' := by
  obtain ⟨hlooks', t', honward', hundone⟩ := h
  refine ⟨?_, t', honward.trans honward', hundone⟩
  rw [Transcript.exchanges_append]
  exact fun x hx => (List.mem_append.mp hx).elim (hlooks x) (hlooks' x)

/-- It has failed, and something is reported. -/
theorem Failed.reported (h : Failed s l₁ e s') (hnote : l₂.exchanges = []) :
    Failed s (l₁ ++ l₂) e s' := by
  obtain ⟨hlooks, t, honward, hundone⟩ := h
  refine ⟨?_, t, honward.mono (List.prefix_append l₁ l₂).isInfix, hundone⟩
  rwa [Transcript.exchanges_append, hnote, List.append_nil]

/-- Asking about the memory management unit is looking. -/
theorem looks_mmuOn {answer : Except Error Bool} (h : (mmuOn (A := A)).run.Path log answer) :
    ∀ x ∈ log.exchanges, x.Looks := by
  rcases path_mmuOn h with ⟨rfl, -⟩ | ⟨on, rfl, -⟩
  · exact nofun
  · intro x hx
    rw [List.mem_singleton.mp (show x ∈ [_] from hx)]
    exact Or.inl rfl

/-- If the backup fails, what was cut is joined again. -/
theorem failed_serve (h : Opened s live base) (hc : s.Coalesced s.order) (hpos : 0 < n)
    (hpath : ((serve n).run.run s).Path log (.error e, s')) : Failed s log e s' := by
  have hserved := path_serve h hpos hpath
  generalize hcalls : log.exchanges = calls at hserved
  cases hserved with
  | full _ => exact ⟨by rw [hcalls]; exact nofun, s, .stay, .refl s, Or.inl rfl⟩
  | unread e hi _ =>
      refine ⟨?_, s, .stay, undone_carved h.toSlotted hc hi, Or.inr ⟨e, rfl⟩⟩
      rw [hcalls]
      intro x hx
      rw [List.mem_singleton.mp hx]
      exact Or.inr ⟨_, _, rfl⟩

/-- A failed attempt has looked at most, and perhaps opened the window. -/
theorem failed_allocTry (h : Settled s live mmu)
    (hpath : ((allocTry size).run.run s).Path log (.error e, s')) : Failed s log e s' := by
  have htried := path_allocTry hpath
  generalize hr : (Except.error e, s') = r at htried
  -- by how far it got
  cases htried with
  | overflow _ =>
      cases hr
      exact ⟨nofun, s, .stay, .refl s, Or.inl rfl⟩
  | opened hn ho hserve =>
      subst hr
      obtain ⟨base, -, hopen, hc⟩ := h.opened ho
      exact failed_serve hopen hc (Grants.roundUp_spec hn).1 hserve
  | unlearned _ _ hseen =>
      cases hr
      exact ⟨looks_mmuOn hseen, s, .stay, .refl s, Or.inl rfl⟩
  | unusable _ _ hseen _ hmore =>
      cases hr
      exact Failed.reported ⟨looks_mmuOn hseen, s, .stay, .refl s, Or.inl rfl⟩ hmore
  | opens hn ho hasked hopens hserve =>
      subst hr
      have hclosed := h.closed ho
      obtain ⟨hopen, hc⟩ := hclosed.openAt hopens.2
      refine .after ?_ (.opens ho hasked hopens List.infix_rfl)
        (failed_serve hopen hc (Grants.roundUp_spec hn).1 hserve)
      rw [Transcript.exchanges_append]
      exact fun x hx => (List.mem_append.mp hx).elim (looks_mmuOn hasked x) nofun

/-- A failure that is passed on, with a report or without one. -/
theorem Failed.passed_on {e' : Error} (h : Failed s l₁ e' t) (report : Option Note)
    (hpath : ((do
      if let some n := report then note n
      throw e' : AreaM A (Area A.width)).run.run t).Path l₂ (.error e, s')) :
    Failed s (l₁ ++ l₂) e s' := by
  cases report with
  | none =>
      obtain ⟨rfl, heq⟩ := path_done.mp hpath
      cases heq
      exact h.reported rfl
  | some n =>
      obtain ⟨_, rest, rfl, hrest⟩ := path_ask.mp hpath
      obtain ⟨rfl, heq⟩ := path_done.mp hrest
      cases heq
      exact h.reported rfl

/-- So has a failed request for one size. -/
theorem failed_alloc (h : Settled s live mmu)
    (hpath : ((alloc size).run.run s).Path log (.error e, s')) : Failed s log e s' := by
  rw [alloc] at hpath
  obtain ⟨l₁, l₂, r, t, rfl, h₁, h₂⟩ := path_outcome hpath
  cases r with
  | ok area => cases (path_done.mp h₂).2
  | error e' =>
      have hfailed := failed_allocTry h h₁
      cases e' with
      | resourceNotAvailable requested available =>
          exact hfailed.passed_on (some (.notEnough requested)) h₂
      | _ => exact hfailed.passed_on none h₂

/-- Smaller and smaller sizes are tried, and the last failure is the one that counts. -/
theorem failed_allocHalving {least : Nat} (hl : 0 < least) (size : Nat) :
    ∀ {s : Areas A.width} {mmu : Bool} {log : Transcript A}, Settled s live mmu →
      ((allocHalving least size hl).run.run s).Path log (.error e, s') → Failed s log e s' := by
  -- on the size, which is halved until it would be too small
  induction size using Nat.strongRecOn with
  | ind size ih =>
      intro s mmu log h hpath
      rw [allocHalving] at hpath
      obtain ⟨l₁, l₂, r, t, rfl, h₁, h₂⟩ := path_outcome hpath
      cases r with
      | ok area => cases (path_done.mp h₂).2
      | error e' =>
          have hfailed := failed_allocTry h h₁
          cases e' with
          | resourceNotAvailable requested available =>
              by_cases hsize : least ≤ size / 2
              · simp only [dif_pos hsize] at h₂
                obtain ⟨mmu', ht⟩ := path_anyTarget (settled_grants.wp_allocTry h size) h₁
                exact .after hfailed.looks hfailed.full (ih (size / 2) (by omega) ht h₂)
              · simp only [dif_neg hsize] at h₂
                exact hfailed.passed_on (some (.noneLargeEnough least)) h₂
          | _ => exact hfailed.passed_on none h₂

/-- A FAILED REQUEST LEAVES WHAT IT FOUND, the window apart. -/
theorem Demand.failed (h : Settled s live mmu) (demand : Demand)
    (hpath : (demand.perform.run.run s).Path log (.error e, s')) : Failed s log e s' := by
  cases demand with
  | alloc size => exact failed_alloc h hpath
  | allocTry size => exact failed_allocTry h hpath
  | allocShrinking preferred least => exact failed_allocHalving _ _ h hpath

end Paths

/-! ## What there is to see of it -/

section Sights

variable {s s' t : Areas A.width} {live : List (Area A.width)} {mmu mmu' : Bool}
  {log : Transcript A} {e : Error}

/-- The window was closed, could be opened, and is open now, as one free block.  A request of the
    closed one, answered as this one was, goes on as one of the open window does. -/
structure OpenedMeanwhile (s : Areas A.width) (log : Transcript A) (s' : Areas A.width) (on : Bool)
    (base : BitVec A.width) (asked : Transcript A) : Prop where
  closed : s.opened = false
  usable : s.config.Opens on base
  answered : (mmuOn (A := A)).run.Path asked (.ok on)
  told : asked ++ [⟨.note (.window on base.toNat), ()⟩] <:+: log
  layout : s'.layout = [{ address := base, size := s.config.usable, free := true }]
  same : Indistinct ⟨s.openAt base, []⟩ ⟨s', []⟩
  again : ∀ demand : Demand, Resumes demand.perform s (s.openAt base)
    (asked ++ [⟨.note (.window on base.toNat), ()⟩])

/-- What there is to see of a request that failed: nothing, now or later, except that the window may
    be open and that a free block may have lost what was saved for it. -/
structure Unseen (s : Areas A.width) (live : List (Area A.width)) (log : Transcript A)
    (s' : Areas A.width) : Prop where
  id : s'.id = s.id
  config : s'.config = s.config
  available : s'.available = s.available
  looks : ∀ x ∈ log.exchanges, x.Looks
  handles : ∀ a ∈ live, StillHolds s s' a
  rest : Forgets s.layout s'.layout ∧ Indistinct ⟨s, live⟩ ⟨s', live⟩ ∨
    ∃ on base asked, OpenedMeanwhile s log s' on base asked

/-- What it leaves is an arena with the same areas. -/
theorem Reachable.of_failed (h : Reachable A s live mmu) (demand : Demand)
    (hpath : (demand.perform.run.run s).Path log (.error e, s')) :
    ∃ mmu', Reachable A s' live mmu' := by
  have hrequest : (demand.request.perform.run s).Path log (none, s') := by
    cases demand <;>
      exact path_bind.mpr ⟨log, [], (.error e, s'), (List.append_nil log).symm, hpath, .done _⟩
  have hlive : demand.request.live live none = live := by
    cases demand <;> exact List.append_nil live
  rw [← hlive]
  exact h.of_path demand.request hrequest

/-- What was cut and joined again shows what it showed. -/
theorem Undone.indistinct (h : Undone s s') (hs : Settled s live mmu) (hs' : Settled s' live mmu')
    (hfirm : Firm s s.order) (hfirm' : Firm s' s'.order) : Indistinct ⟨s, live⟩ ⟨s', live⟩ :=
  Partners.indistinct
    ⟨⟨h.config.symm, h.layout.shown.symm, hfirm, hfirm'⟩, rfl, ⟨mmu, hs⟩, ⟨mmu', hs'⟩⟩

/-- A FAILED REQUEST DOES NOT SHOW, whatever it failed for, and whatever came before. -/
theorem Reachable.failure_unseen (h : Reachable A s live mmu) (demand : Demand)
    (hpath : (demand.perform.run.run s).Path log (.error e, s')) : Unseen s live log s' := by
  obtain ⟨hlooks, t, honward, hundone, -⟩ := demand.failed h.settled hpath
  obtain ⟨mmu', h'⟩ := h.of_failed demand hpath
  cases honward with
  | stay =>
      have hsame := hundone.indistinct h.settled h'.settled h.twins.left h'.twins.left
      refine ⟨hundone.id, hundone.config, hsame.1.symm, hlooks, ?_, Or.inl ⟨hundone.layout, hsame⟩⟩
      intro a ha
      obtain ⟨i, hi, hf, rfl⟩ := mem_handles.mp (h.settled.standing.handles.mem_iff.mp ha)
      exact (hundone.live i hi hf).holds hundone.id h.settled.standing.slotted
        h'.settled.standing.slotted hi hf
  | @opens on base asked ho hasked hopens htold =>
      have hclosed := h.settled.closed ho
      obtain rfl := hclosed.live
      have hslotted : Slotted s s.order := h.settled.standing.slotted
      obtain ⟨hopen, hcoal⟩ := hclosed.openAt hopens.2
      obtain ⟨new, horder, hfirm, -⟩ := openAt_shown base hslotted hclosed.order
      have hlayout := layout_openAt hslotted hclosed.order base
      have hsettled : Settled (s.openAt base) [] on :=
        Or.inr ⟨base, (openAt_config s base).symm ▸ hopens.1, hopen, hcoal⟩
      have hsame := hundone.indistinct hsettled h'.settled (horder ▸ hfirm) h'.twins.left
      refine ⟨hundone.id.trans (insert_id _ _), hundone.config.trans (openAt_config s base),
        hsame.1.symm.trans (hclosed.available_openAt hopens), hlooks, nofun,
        Or.inr ⟨on, base, asked, ho, hopens, hasked, htold, ?_, hsame,
          fun demand => demand.resumes hclosed hasked hopens⟩⟩
      -- there is nothing to forget in a window that was just opened
      rcases hundone.layout with hkept | ⟨before, b, after, hrow, -, hrow'⟩
      · rw [hkept, hlayout]
      · rw [hlayout] at hrow
        rcases List.append_eq_singleton_iff.mp hrow.symm with ⟨rfl, hb⟩ | ⟨-, hb⟩
        · obtain ⟨rfl, rfl⟩ := List.cons.inj hb
          exact hrow'
        · exact absurd hb (List.cons_ne_nil b after)

/-- A target like `plainAnswer` of which nothing can be read. -/
def deafAnswer {A : Arch} : (op : Op A) → op.Answer
  | .call (.read _ _) => .error .nonFatal
  | op => plainAnswer op

/-- An attempt to get sixteen of the thirty-two bytes between two areas. -/
abbrev gapFailure : Dialogue (plainCore 32)
    (Except Error (Area (plainCore 32).width) × Areas (plainCore 32).width) :=
  (allocTry (A := plainCore 32) 16).run.run gapOfOne.1

/-- The bytes cannot be read, so the gap stays one block; only what was left over there from an area
    that was given back is forgotten. -/
theorem Reachable.failure_unseen_gap :
    (answeredEnd deafAnswer gapFailure).1 = .error (.ofTarget .nonFatal) ∧
      (answeredEnd deafAnswer gapFailure).2.layout ≠ gapOfOne.1.layout ∧
      Unseen gapOfOne.1 gapOfOne.2 (answeredLog deafAnswer gapFailure)
        (answeredEnd deafAnswer gapFailure).2 := by
  have hreachable : Reachable (plainCore 32) gapOfOne.1 gapOfOne.2 false :=
    plainPast_reachable _ (.new 1 gapStart.config false)
  have herror : (answeredEnd deafAnswer gapFailure).1 = .error (.ofTarget .nonFatal) := by
    decide +kernel
  have hend : answeredEnd deafAnswer gapFailure =
      (.error (.ofTarget .nonFatal), (answeredEnd deafAnswer gapFailure).2) :=
    Prod.ext herror rfl
  have hpath := answered_path deafAnswer gapFailure
  rw [hend] at hpath
  exact ⟨herror, by decide +kernel, Reachable.failure_unseen hreachable (.allocTry 16) hpath⟩

end Sights

end Areas

end DebugLink
