import DebugLink.Arch.Plain
import DebugLink.Proofs.Path
import DebugLink.Proofs.Runner.Idle
import Mathlib.Data.List.Induction
import Mathlib.Data.Multiset.Basic

/-!
# Exit breakpoints are owned and balanced

A runner sets a breakpoint at the exit point of its image, and has to remove that one and no other:
a user may have set breakpoints too, and even at the same address.

* `Transcript.owed` reads off a transcript which breakpoint was set last and not removed since.
  In a `Balanced` transcript a breakpoint is set ONLY WHERE NONE IS OWED, and what is removed is
  what is owed.
* `Books` says that what is owed is what the runner remembers.  `wp_arm` and `wp_disarm` are the
  two steps that change it; everything else leaves breakpoints alone.
* `Life` is any history of one runner.  `pegs` is a target on which removals succeed: what was
  set before a run is what is set after it.
-/

namespace DebugLink

open Environment Dialogue Transcript

variable {A : Arch} {α : Type}

/-! ## What a transcript says of breakpoints -/

/-- The breakpoint that an operation sets or removes. -/
def Op.breakpoint? : Op A → Option (A.Addr × A.Kind)
  | .call (.addBreakpoint address kind) | .call (.removeBreakpoint address kind) =>
      some (address, kind)
  | _ => none

/-- Breakpoints are left alone. -/
def Op.Aside (op : Op A) : Prop :=
  op.breakpoint? = none

/-- Data and registers are not breakpoints, ... -/
theorem data_aside (op : Op A) (h : op.Data) : op.Aside := by
  cases op with
  | call c => cases c <;> trivial
  | _ => rfl

theorem gentle_aside (op : Op A) (h : op.Gentle) : op.Aside :=
  data_aside op h.data

/-- ... and neither is what a runner only looks at. -/
theorem glance_aside (op : Op A) (h : op.Glance) : op.Aside := by
  cases op with
  | call c => cases c <;> trivial
  | _ => rfl

/-- The breakpoint that is owed after an event, if `owed?` was owed before it. A removal counts
    whatever comes of it. -/
def Event.owed (owed? : Option (A.Addr × A.Kind)) : Event A → Option (A.Addr × A.Kind)
  | ⟨.call (.addBreakpoint address kind), .ok true⟩ => some (address, kind)
  | ⟨.call (.removeBreakpoint _ _), _⟩ => none
  | _ => owed?

/-- Where `owed?` is owed, a breakpoint is set only if that is none, and removed only if that is
    the one. -/
def Event.InOrder (owed? : Option (A.Addr × A.Kind)) : Event A → Prop
  | ⟨.call (.addBreakpoint _ _), _⟩ => owed? = none
  | ⟨.call (.removeBreakpoint address kind), _⟩ => owed? = some (address, kind)
  | _ => True

/-- The target is asked whether it can set breakpoints, and answers `support`. -/
def Event.Tells (support : Bool) : Event A → Prop
  | ⟨.feature .breakpoints, told⟩ => told = support
  | _ => True

namespace Transcript

/-- The breakpoint that was set last, unless its removal was tried since. -/
def owed (log : Transcript A) : Option (A.Addr × A.Kind) :=
  log.foldl Event.owed none

/-- Every breakpoint that is removed is the one that is owed, and none is set before that. -/
def Balanced (log : Transcript A) : Prop :=
  ∀ (before : Transcript A) event after, log = before ++ event :: after →
    event.InOrder before.owed

/-- No breakpoint is set or removed. -/
def Aside (log : Transcript A) : Prop :=
  ∀ event ∈ log, event.op.Aside

/-- Support for breakpoints does not change. -/
def Tells (support : Bool) (log : Transcript A) : Prop :=
  ∀ event ∈ log, event.Tells support

variable {log : Transcript A} {event : Event A} {support : Bool}

/-- What is owed is read off event by event. -/
theorem owed_append (log : Transcript A) (event : Event A) :
    owed (log ++ [event]) = event.owed log.owed := by
  simp [owed]

/-- It does not change while breakpoints are left alone, ... -/
theorem owed_aside (hop : event.op.Aside) (owed? : Option (A.Addr × A.Kind)) :
    event.owed owed? = owed? := by
  obtain ⟨op, answer⟩ := event
  cases op with
  | call c => cases c <;> first | rfl | exact nomatch hop
  | _ => rfl

/-- ... and whatever is owed, that is in order. -/
theorem inOrder_aside (hop : event.op.Aside) (owed? : Option (A.Addr × A.Kind)) :
    event.InOrder owed? := by
  obtain ⟨op, answer⟩ := event
  cases op with
  | call c => cases c <;> trivial
  | _ => trivial

theorem balanced_nil : Balanced ([] : Transcript A) := by
  intro before event after h
  exact absurd h.symm (List.append_ne_nil_of_right_ne_nil before (List.cons_ne_nil event after))

/-- One more event in order keeps the balance. -/
theorem Balanced.append (h : log.Balanced) (hevent : event.InOrder log.owed) :
    Balanced (log ++ [event]) := by
  intro before event' after heq
  rcases split_last heq with ⟨rfl, rfl, -⟩ | ⟨after', hlog, -⟩
  · exact hevent
  · exact h before event' after' hlog

/-- A run was balanced at every earlier moment. -/
theorem Balanced.of_append {more : Transcript A} (h : Balanced (log ++ more)) : log.Balanced := by
  rintro before event after rfl
  exact h before event (after ++ more) (by simp)

theorem Aside.append (h : log.Aside) (hop : event.op.Aside) : Aside (log ++ [event]) := by
  intro event' hm
  rcases List.mem_append.mp hm with hm | hm
  · exact h event' hm
  · rw [List.mem_singleton.mp hm]
    exact hop

theorem Tells.of_append {more : Transcript A} (h : Tells support (log ++ more)) :
    log.Tells support :=
  fun event hm => h event (List.mem_append_left _ hm)

theorem Tells.last (h : Tells support (log ++ [event])) : event.Tells support :=
  h event (List.mem_append_right _ (List.mem_singleton_self _))

/-- What is owed was set, and nothing happened to breakpoints since. -/
theorem Balanced.set_of_owed (h : log.Balanced) {address : A.Addr} {kind : A.Kind}
    (ho : log.owed = some (address, kind)) :
    ∃ earlier, ∃ between : Transcript A,
      log = earlier ++ ⟨.call (.addBreakpoint address kind), .ok true⟩ :: between ∧
      between.Aside := by
  induction log using List.reverseRecOn with
  | nil => exact nomatch ho
  | append_singleton log event ih =>
      rw [owed_append] at ho
      have hevent : event.InOrder (owed log) := h log event [] rfl
      by_cases hop : event.op.Aside
      · -- what was owed before is owed still
        rw [owed_aside hop] at ho
        obtain ⟨earlier, between, rfl, hbetween⟩ := ih h.of_append ho
        exact ⟨earlier, between ++ [event], by simp, hbetween.append hop⟩
      · obtain ⟨op, answer⟩ := event
        cases op with
        | call c =>
            cases c with
            | addBreakpoint address' kind' =>
                have hnone : owed log = none := hevent
                match answer, ho with
                | .ok true, ho =>
                    cases ho
                    exact ⟨log, [], rfl, fun _ hm => absurd hm List.not_mem_nil⟩
                | .ok false, ho => exact nomatch hnone.symm.trans ho
                | .error _, ho => exact nomatch hnone.symm.trans ho
            | removeBreakpoint => exact nomatch ho
            | _ => exact absurd rfl hop
        | _ => exact absurd rfl hop

/-- What was set is owed until it is removed. -/
theorem Balanced.removed_of_set {before after : Transcript A} {address : A.Addr} {kind : A.Kind}
    (h : Balanced (before ++ ⟨.call (.addBreakpoint address kind), .ok true⟩ :: after)) :
    after.Aside ∧
        owed (before ++ ⟨.call (.addBreakpoint address kind), .ok true⟩ :: after) =
          some (address, kind) ∨
      ∃ between : Transcript A, ∃ answer later,
        after = between ++ ⟨.call (.removeBreakpoint address kind), answer⟩ :: later ∧
        between.Aside := by
  induction after using List.reverseRecOn with
  | nil => exact Or.inl ⟨fun _ hm => absurd hm List.not_mem_nil, owed_append _ _⟩
  | append_singleton after event ih =>
      rw [← List.cons_append, ← List.append_assoc] at h
      -- it is owed still, or its removal was tried before
      rcases ih h.of_append with ⟨haside, ho⟩ | ⟨between, answer, later, rfl, hbetween⟩
      · have hevent := h _ event [] rfl
        rw [ho] at hevent
        by_cases hop : event.op.Aside
        · refine Or.inl ⟨haside.append hop, ?_⟩
          rw [← List.cons_append, ← List.append_assoc, owed_append, owed_aside hop, ho]
        · obtain ⟨op, answer⟩ := event
          cases op with
          | call c =>
              cases c with
              | addBreakpoint => exact nomatch hevent
              | removeBreakpoint address' kind' =>
                  cases hevent
                  exact Or.inr ⟨after, answer, [], rfl, haside⟩
              | _ => exact absurd rfl hop
          | _ => exact absurd rfl hop
      · exact Or.inr ⟨between, answer, later ++ [event], by simp, hbetween⟩

end Transcript

/-! ## The runner's books -/

/-- The exit breakpoint that a runner has to remove. -/
def Runner.outstanding (r : Runner A) : Option (A.Addr × A.Kind) :=
  r.breakpoint.map fun address => (address, r.exitKind)

/-- What the books depend on. -/
def Runner.exiting (r : Runner A) : Option A.Addr × A.Addr × A.Info :=
  (r.breakpoint, r.image.exit, r.image.info)

/-- What is owed is what the runner remembers, and an algorithm that halts on its own needs no
    breakpoint. -/
structure Books (support : Bool) (exit : A.Addr) (h : Held A) (log : Transcript A) : Prop where
  balanced : log.Balanced
  owed : log.owed = h.runner.outstanding
  armed : h.runner.breakpoint ≠ none → support = true ∧ exit ≠ 0
  point : h.runner.image.exit = exit
  aside : exit = 0 → log.Aside

/-- The books are right, on a target whose support for breakpoints does not change. -/
def Held.Booked (support : Bool) (exit : A.Addr) (h : Held A) (log : Transcript A) : Prop :=
  log.Tells support → Books support exit h log

/-- What holds at every moment. -/
def Transcript.Fair (support : Bool) (exit : A.Addr) (log : Transcript A) : Prop :=
  log.Tells support → log.Balanced ∧ (exit = 0 → log.Aside)

section Books

variable {support : Bool} {exit : A.Addr} {h h' : Held A} {log : Transcript A} {K : Op A → Prop}

/-- Right books are fair. -/
theorem Held.Booked.fair (hb : h.Booked support exit log) : log.Fair support exit :=
  fun ht => ⟨(hb ht).balanced, (hb ht).aside⟩

/-- What leaves breakpoints alone leaves the books as they are. -/
theorem kept_booked (hK : ∀ op : Op A, K op → op.Aside) (h : Held A) :
    Kept K (Fair support exit) (h.Booked support exit) where
  event := by
    intro log op a hop hb ht
    have hside : (⟨op, a⟩ : Event A).op.Aside := hK op hop
    obtain ⟨hbal, ho, hs, he, haside⟩ := hb ht.of_append
    refine ⟨hbal.append (inOrder_aside hside _), ?_, hs, he, fun hz => (haside hz).append hside⟩
    rw [owed_append, owed_aside hside, ho]
  holds := Held.Booked.fair

/-- They only depend on the breakpoint and on the image. -/
theorem Held.Booked.congr (hb : h.Booked support exit log)
    (hx : h'.runner.exiting = h.runner.exiting) : h'.Booked support exit log := by
  obtain ⟨hpoint, hexit, hinfo⟩ : h'.runner.breakpoint = h.runner.breakpoint ∧
      h'.runner.image.exit = h.runner.image.exit ∧ h'.runner.image.info = h.runner.image.info :=
    ⟨congrArg (·.1) hx, congrArg (·.2.1) hx, congrArg (·.2.2) hx⟩
  have hout : h'.runner.outstanding = h.runner.outstanding := by
    rw [Runner.outstanding, Runner.outstanding, Runner.exitKind, Runner.exitKind, hpoint, hinfo]
  intro ht
  obtain ⟨hbal, ho, harmed, hp, haside⟩ := hb ht
  exact ⟨hbal, ho.trans hout.symm, hpoint ▸ harmed, hexit.trans hp, haside⟩

namespace Runner

/-- A computation that leaves breakpoints alone. -/
theorem wp_aside (hK : ∀ op : Op A, K op → op.Aside) {x : RunM A α}
    (hx : Confined K Held.keeping x) (hb : h.Booked support exit log) :
    (recorder A).wp (Fair support exit) (x.run.run h)
      (fun r log => r.2.Booked support exit log ∧ r.2.keeping = h.keeping) log := by
  refine wp_mono (wp_confined (kept_booked hK h) hx hb h) ?_
  intro r log ⟨hb, hk⟩
  have hx : r.2.keeping.runner.exiting = h.keeping.runner.exiting :=
    congrArg (fun h : Held A => h.runner.exiting) hk
  exact ⟨hb.congr hx, hk⟩

end Runner

namespace Held.Booked

/-- The target has set the breakpoint. -/
theorem arm (hb : h.Booked support exit log) (hnone : h.runner.breakpoint = none)
    (hexit : h.runner.image.exit ≠ 0) (hsupport : log.Tells support → support = true) :
    Held.Booked support exit { h with runner.breakpoint := some h.runner.image.exit }
      (log ++ [⟨.call (.addBreakpoint h.runner.image.exit h.runner.exitKind), .ok true⟩]) := by
  intro ht
  obtain ⟨hbal, ho, -, hp, -⟩ := hb ht.of_append
  have hfree : log.owed = none := by
    rw [ho, Runner.outstanding, hnone]
    rfl
  have hzero : exit ≠ 0 := hp ▸ hexit
  refine ⟨hbal.append hfree, ?_, fun _ => ⟨hsupport ht.of_append, hzero⟩, hp,
    fun hz => absurd hz hzero⟩
  rw [owed_append]
  rfl

/-- The target has not set it, as far as it says. -/
theorem refuse (hb : h.Booked support exit log) (hnone : h.runner.breakpoint = none)
    (hexit : h.runner.image.exit ≠ 0) {answer : Except TargetError Bool}
    (hanswer : answer ≠ .ok true) :
    h.Booked support exit
      (log ++ [⟨.call (.addBreakpoint h.runner.image.exit h.runner.exitKind), answer⟩]) := by
  intro ht
  obtain ⟨hbal, ho, harmed, hp, -⟩ := hb ht.of_append
  have hfree : log.owed = none := by
    rw [ho, Runner.outstanding, hnone]
    rfl
  have hzero : exit ≠ 0 := hp ▸ hexit
  refine ⟨hbal.append hfree, ?_, harmed, hp, fun hz => absurd hz hzero⟩
  rw [owed_append, ← ho]
  match answer with
  | .ok true => exact absurd rfl hanswer
  | .ok false => rfl
  | .error _ => rfl

/-- The removal was tried. -/
theorem disarm (hb : h.Booked support exit log) {address : A.Addr}
    (hpoint : h.runner.breakpoint = some address) (answer : Except TargetError Bool) :
    Held.Booked support exit { h with runner.breakpoint := none }
      (log ++ [⟨.call (.removeBreakpoint address h.runner.exitKind), answer⟩]) := by
  intro ht
  obtain ⟨hbal, ho, harmed, hp, -⟩ := hb ht.of_append
  have howed : log.owed = some (address, h.runner.exitKind) := by
    rw [ho, Runner.outstanding, hpoint]
    rfl
  have hzero : exit ≠ 0 := (harmed (by rw [hpoint]; exact nofun)).2
  refine ⟨hbal.append howed, ?_, fun hne => absurd rfl hne, hp, fun hz => absurd hz hzero⟩
  rw [owed_append]
  rfl

/-- A breakpoint is only remembered where breakpoints are supported. -/
theorem unsupported {told : Bool} (hb : h.Booked support exit log)
    (hpoint : h.runner.breakpoint ≠ none)
    (ht : Tells support (log ++ [⟨.feature .breakpoints, told⟩])) : told = true :=
  ht.last.trans ((hb ht.of_append).armed hpoint).1

end Held.Booked

namespace Runner

/-- A breakpoint is set where none is owed, and remembered if the target has set it. -/
theorem wp_arm (hnone : h.runner.breakpoint = none) (hb : h.Booked support exit log) :
    (recorder A).wp (Fair support exit) ((arm (A := A)).run.run h)
      (fun r log => r.2.Booked support exit log) log := by
  have hkept : Kept Op.Aside (Fair support exit) (h.Booked support exit) :=
    kept_booked (fun _ => id) h
  refine wp_get ?_
  dsimp only
  split
  · next hexit =>
    refine wp_kept hkept rfl hb fun told hb => ?_
    cases told with
    | false => exact hb
    | true =>
        refine wp_op hb.fair fun answer => ?_
        match answer with
        | .error e => exact hb.refuse hnone hexit nofun
        | .ok false => exact wp_kept hkept rfl (hb.refuse hnone hexit nofun) fun _ hb => hb
        | .ok true => exact hb.arm hnone hexit fun ht => ht.last.symm
  · exact hb

/-- The breakpoint that is owed is removed, and forgotten whatever comes of it. -/
theorem wp_disarm_booked (hb : h.Booked support exit log) :
    (recorder A).wp (Fair support exit) ((disarm (A := A)).run.run h)
      (fun r log => r.2.Booked support exit log) log := by
  have hkept : ∀ h : Held A, Kept Op.Aside (Fair support exit) (h.Booked support exit) :=
    kept_booked fun _ => id
  refine wp_get ?_
  dsimp only
  split
  · exact hb
  · next address hpoint =>
    have hne : h.runner.breakpoint ≠ none := by
      rw [hpoint]
      exact nofun
    refine wp_modify (wp_kept (hkept h) rfl hb fun told hasked => ?_)
    cases told with
    | false => exact fun ht => absurd (hb.unsupported hne ht) Bool.false_ne_true
    | true =>
        refine wp_op hasked.fair fun answer => ?_
        match answer with
        | .error e => exact hasked.disarm hpoint _
        | .ok true => exact hasked.disarm hpoint _
        | .ok false => exact wp_kept (hkept _) rfl (hasked.disarm hpoint _) fun _ hb => hb

/-! ## What a runner is asked to do -/

/-- Everything is brought into place, the breakpoint last. -/
theorem wp_load_booked (hnone : h.runner.breakpoint = none) (hb : h.Booked support exit log) :
    (recorder A).wp (Fair support exit) ((load (A := A)).run.run h)
      (fun r log => r.2.Booked support exit log) log := by
  have hreset : Held.Booked support exit { h with runner.saved := [] } log := hb.congr rfl
  refine wp_modify (wp_get (wp_seq (wp_mono
    (wp_aside gentle_aside (saveRegs_gentle _).kind hreset) ?_)))
  rintro ⟨e | _, h₁⟩ log ⟨hb, hk₁⟩
  · exact hb
  · refine wp_seq (wp_mono (wp_aside data_aside (.lift (writeMem_data _).kind) hb) ?_)
    rintro ⟨e | _, h₂⟩ log ⟨hb, hk₂⟩
    · exact hb
    · refine wp_seq (wp_mono (wp_aside data_aside (.lift (writeRegs_data _).kind) hb) ?_)
      rintro ⟨e | _, h₃⟩ log ⟨hb, hk₃⟩
      · exact hb
      · refine wp_seq (wp_mono (wp_aside data_aside (.lift (writeContext_data _).kind) hb) ?_)
        rintro ⟨e | _, h₄⟩ log ⟨hb, hk₄⟩
        · exact hb
        · have hk : h₄.keeping = h.keeping := hk₄.trans (hk₃.trans (hk₂.trans hk₁))
          have hpoint : h₄.runner.breakpoint = h.runner.breakpoint :=
            congrArg (·.runner.breakpoint) hk
          exact wp_arm (hpoint.trans hnone) hb

/-- The core is let go behind the breakpoint. -/
theorem wp_launch_booked (hnone : h.runner.breakpoint = none) (hb : h.Booked support exit log) :
    (recorder A).wp (Fair support exit) ((launch (A := A)).run.run h)
      (fun r log => r.2.Booked support exit log) log := by
  refine wp_seq (wp_mono (wp_load_booked hnone hb) ?_)
  rintro ⟨e | _, h'⟩ log hb
  · exact hb
  · have hkept : Kept Op.Aside (Fair support exit) (h'.Booked support exit) :=
      kept_booked (fun _ => id) h'
    refine wp_get (wp_kept hkept rfl hb fun _ hb => wp_kept hkept rfl hb ?_)
    -- let go or not, the breakpoint is set
    rintro (e | _) hb <;> exact hb

/-- A start that fails removes what it has set. -/
theorem wp_start_booked (ht : h.Tidy) (hb : h.Booked support exit log) :
    (recorder A).wp (Fair support exit) ((start (A := A)).run.run h)
      (fun r log => r.2.Booked support exit log) log := by
  have hkept : Kept Op.Aside (Fair support exit) (h.Booked support exit) :=
    kept_booked (fun _ => id) h
  refine wp_get ?_
  cases hbusy : h.busy with
  | true => exact wp_kept hkept rfl hb fun _ hb => hb
  | false =>
      cases hstate : h.runner.state.isActive with
      | true => exact hb
      | false =>
          -- an idle runner remembers none, so it may set one
          have hnone : h.runner.breakpoint = none := (ht hstate).breakpoint
          refine wp_seq (wp_mono (wp_aside glance_aside (.lift requireHalted_glance.kind) hb) ?_)
          rintro ⟨e | _, h₁⟩ log ⟨hb, hk⟩
          · exact hb
          · have hpoint : h₁.runner.breakpoint = h.runner.breakpoint :=
              congrArg (·.runner.breakpoint) hk
            refine wp_seq (wp_outcome (wp_mono (wp_launch_booked (hpoint.trans hnone) hb) ?_))
            rintro ⟨e | _, h₂⟩ log hb
            · -- the launch failed: what was set is removed, and the registers are put back
              refine wp_seq (wp_outcome (wp_mono (wp_disarm_booked hb) ?_))
              rintro ⟨_, h₃⟩ log hb
              refine wp_seq (wp_outcome (wp_mono
                (wp_aside gentle_aside restoreContext_gentle.kind hb) ?_))
              exact fun _ _ hb => hb.1
            · exact hb.congr rfl

/-- At the end of a run the breakpoint goes first; whatever fails after that leaves it gone. -/
theorem wp_finish_booked (hb : h.Booked support exit log) :
    (recorder A).wp (Fair support exit) ((finish (A := A)).run.run h)
      (fun r log => r.2.Booked support exit log) log := by
  have hcollect : (recorder A).wp (Fair support exit) ((collect (A := A)).run.run h)
      (fun r log => r.2.Booked support exit log) log := by
    rw [collect_eq]
    refine wp_seq (wp_mono (wp_disarm_booked hb) ?_)
    rintro ⟨e | _, h'⟩ log hb
    · exact hb
    · exact wp_mono (wp_aside gentle_aside gather_gentle.kind hb) fun _ _ hb => hb.1
  refine wp_seq (wp_outcome (wp_mono hcollect ?_))
  rintro ⟨collected, h₁⟩ log hb₁
  refine wp_seq (wp_outcome (wp_mono (wp_aside gentle_aside restoreContext_gentle.kind hb₁) ?_))
  rintro ⟨restored, h₂⟩ log ⟨hb, -⟩
  cases collected with
  | error e => exact hb.congr rfl
  | ok _ => cases restored <;> exact hb.congr rfl

/-- A wait removes the breakpoint if the algorithm has halted, and leaves it alone if not. -/
theorem wp_wait_booked (hb : h.Booked support exit log) (patience timeout : Nat) :
    (recorder A).wp (Fair support exit) ((wait (A := A) patience timeout).run.run h)
      (fun r log => r.2.Booked support exit log) log := by
  have hkept : Kept Op.Aside (Fair support exit) (h.Booked support exit) :=
    kept_booked (fun _ => id) h
  show (recorder A).wp _ ((if (!h.runner.state.isActive) = true then _ else _ :
    RunM A Settled).run.run h) _ _
  split
  · exact hb
  · refine wp_kept hkept rfl hb fun now hb => ?_
    refine wp_seq (wp_liftDialogue (wp_mono
      (wp_within (kept_booked glance_aside h) (watch_glance _ _ _) hb) ?_))
    rintro watched log ⟨hb, -⟩
    cases watched with
    | expired => exact wp_kept hkept rfl hb fun _ hb => hb.congr rfl
    -- only a core that was seen halted ends the run
    | halted =>
        refine wp_seq (wp_mono (wp_finish_booked hb) ?_)
        rintro ⟨e | _, h'⟩ log hb
        · exact hb
        · exact hb
    | _ => exact hb

/-- A run is a start and a wait. -/
theorem wp_run_booked (ht : h.Tidy) (hb : h.Booked support exit log) (patience : Nat) :
    (recorder A).wp (Fair support exit) ((run (A := A) patience).run.run h)
      (fun r log => r.2.Booked support exit log) log := by
  refine wp_seq (wp_mono (wp_start_booked ht hb) ?_)
  rintro ⟨e | _, h'⟩ log hb
  · exact hb
  · exact wp_get (wp_wait_booked hb patience _)

/-- Giving up removes the breakpoint, be the core halted or not. -/
theorem wp_abandon_booked (hb : h.Booked support exit log) :
    (recorder A).wp (Fair support exit) ((abandon (A := A)).run.run h)
      (fun r log => r.2.Booked support exit log) log := by
  have hkept : ∀ h : Held A, Kept Op.Aside (Fair support exit) (h.Booked support exit) :=
    kept_booked fun _ => id
  have hhalt : Confined Op.Aside Held.keeping (call .halt : RunM A Unit) := .call rfl
  show (recorder A).wp _ ((if (!h.runner.state.isActive) = true then _ else _ :
    RunM A Unit).run.run h) _ _
  split
  · exact hb
  · refine wp_kept (hkept h) rfl hb fun _ hb => ?_
    refine wp_seq (wp_outcome (wp_mono (wp_aside (fun _ => id) hhalt hb) ?_))
    rintro ⟨halted, h₁⟩ log ⟨hb, -⟩
    refine wp_seq (wp_outcome (wp_mono (wp_disarm_booked hb) ?_))
    rintro ⟨disarmed, h₂⟩ log hb
    -- the last steps only change the state, which is not in the books
    have hlast : ∀ (h' : Held A) (r : Except Error Unit) log, h'.Booked support exit log →
        (recorder A).wp (Fair support exit) (((do
          modify fun h => { runner := { h.runner with state := .aborted }, busy := false }
          MonadExcept.ofExcept r : RunM A Unit)).run.run h')
          (fun r log => r.2.Booked support exit log) log := by
      rintro h' (e | _) log hb <;> exact hb.congr rfl
    refine wp_kept (hkept h₂) rfl hb ?_
    rintro (e | state) hb
    · exact hlast _ _ _ (hb.congr rfl)
    · cases state with
      | halted =>
          refine wp_seq (wp_outcome (wp_mono
            (wp_aside gentle_aside restoreContext_gentle.kind hb) ?_))
          rintro ⟨restored, h₃⟩ log ⟨hb, -⟩
          exact hlast _ _ _ hb
      | _ => exact hlast _ _ _ (hb.congr rfl)

end Runner

namespace Engine

variable {e : Engine}

/-- What a transfer does before its runner starts has nothing to do with breakpoints. -/
theorem wp_begin_booked (ht : h.Tidy) (hb : h.Booked support exit log) (flow : Flow) :
    (recorder A).wp (Fair support exit) ((e.begin flow).run.run h)
      (fun r log => r.2.Booked support exit log) log := by
  have hkept : ∀ h : Held A, Kept Op.Aside (Fair support exit) (h.Booked support exit) :=
    kept_booked fun _ => id
  have hput : ∀ place value,
      (putPointer place value : Link A Unit).run.Within Op.Data fun _ => True :=
    fun place value => (putPointer_data place value).kind
  refine wp_get ?_
  split
  · exact wp_kept (hkept h) rfl hb fun _ hb => hb
  · refine wp_seq (wp_lift (wp_mono
      (wp_within (kept_booked glance_aside h) Runner.requireHalted_glance.kind hb) ?_))
    rintro (err | _) log ⟨hb, -⟩
    · exact hb
    · refine wp_seq (wp_lift (wp_mono (wp_within (kept_booked data_aside h) (hput _ _) hb) ?_))
      rintro (err | _) log ⟨hb, -⟩
      · exact hb
      · refine wp_seq (wp_lift (wp_mono (wp_within (kept_booked data_aside h) (hput _ _) hb) ?_))
        rintro (err | _) log ⟨hb, -⟩
        · exact hb
        · -- both words are empty now
          refine wp_seq (wp_outcome (wp_mono (Runner.wp_start_booked ht hb) ?_))
          rintro ⟨err | _, h'⟩ log hb
          · exact wp_kept (hkept h') rfl hb fun _ hb => hb
          · exact hb

/-- At the end of a transfer only the wait touches them, ... -/
theorem wp_settle_booked (hb : h.Booked support exit log) (flow : Flow) (patience partner : Nat)
    (moved : Except Error Unit) (stats : Stats) :
    (recorder A).wp (Fair support exit) ((e.settle flow patience partner moved stats).run h)
      (fun r log => r.2.Booked support exit log) log := by
  have hkept : ∀ h : Held A, Kept Op.Aside (Fair support exit) (h.Booked support exit) :=
    kept_booked fun _ => id
  have hread : (do readWord .full (← address partner) : Link A Nat).run.Only Op.Data :=
    .andThen (address_data partner).kind fun _ =>
      (readWord_gentle _ _).kind.weaken fun _ => Op.Gentle.data
  refine wp_then (wp_mono (Runner.wp_wait_booked hb patience _) ?_)
  rintro ⟨waitError | settled, h'⟩ log hb
  · refine wp_kept (hkept h') rfl hb fun _ hb => ?_
    cases moved with
    | error err => exact hb
    | ok _ => exact hb
  · cases settled with
    | undecided => exact hb
    | completed =>
        cases moved with
        | error err => exact hb
        | ok _ =>
            refine wp_then (wp_liftOnly (wp_mono
              (wp_within (kept_booked data_aside h') hread hb) ?_))
            rintro (err | v) log ⟨hb, -⟩
            · exact hb
            · cases v with
              | zero => exact wp_kept (hkept h') rfl hb fun _ hb => hb
              | succ v => exact hb

/-- ... whether or not the algorithm is told to give up. -/
theorem wp_conclude_booked (hb : h.Booked support exit log) (flow : Flow)
    (patience own partner : Nat) (moved : Except Error Unit) (stats : Stats) :
    (recorder A).wp (Fair support exit)
      ((e.conclude flow patience own partner moved stats).run h)
      (fun r log => r.2.Booked support exit log) log := by
  cases moved with
  | ok _ =>
      rw [conclude_moved]
      exact wp_settle_booked hb flow patience partner _ _
  | error err =>
      rw [conclude_failed]
      have hput : (putPointer own 0 : Link A Unit).run.Only Op.Data :=
        (putPointer_data _ _).kind
      refine wp_then (wp_liftOnly (wp_mono (wp_within (kept_booked data_aside h) hput hb) ?_))
      rintro (_ | _) log ⟨hb, -⟩
      · exact wp_kept (kept_booked (fun _ => id) h) rfl hb fun _ hb =>
          wp_settle_booked hb flow patience partner _ _
      · exact wp_settle_booked hb flow patience partner _ _

/-- Neither loop knows of breakpoints: not that of a write, ... -/
theorem wp_write_booked (ht : h.Tidy) (hb : h.Booked support exit log) (patience : Nat)
    (data : List UInt8) :
    (recorder A).wp (Fair support exit) ((e.write patience data).run h)
      (fun r log => r.2.Booked support exit log) log := by
  refine wp_then (wp_mono (wp_begin_booked ht hb .write) ?_)
  rintro ⟨err | _, h'⟩ log hb
  · exact hb
  · refine wp_then (wp_liftOnly (wp_mono
      (wp_within (kept_booked data_aside h') (feedAll_data data {}) hb) ?_))
    rintro ⟨moved, progress⟩ log ⟨hb, -⟩
    exact wp_conclude_booked hb _ _ _ _ _ _

/-- ... nor that of a read. -/
theorem wp_read_booked (ht : h.Tidy) (hb : h.Booked support exit log) (patience : Nat)
    (buffer : List UInt8) :
    (recorder A).wp (Fair support exit) ((e.read patience buffer).run h)
      (fun r log => r.2.Booked support exit log) log := by
  rw [Engine.read]
  split
  · exact hb
  · refine wp_then (wp_mono (wp_begin_booked ht hb .read) ?_)
    rintro ⟨err | _, h'⟩ log hb
    · exact hb
    · refine wp_then (wp_liftOnly (wp_mono
        (wp_within (kept_booked data_aside h') (drainAll_data _ {}) hb) ?_))
      rintro ⟨moved, progress⟩ log ⟨hb, -⟩
      exact wp_then (wp_mono (wp_conclude_booked hb _ _ _ _ _ _) fun _ _ hb => hb)

end Engine

/-- WHATEVER A RUNNER DOES, and whatever is answered, its books stay right. -/
theorem Task.wp_perform_booked (ht : h.Tidy) (hb : h.Booked support exit log) (task : Task) :
    (recorder A).wp (Fair support exit) (task.perform.run h)
      (fun r log => r.2.Booked support exit log) log := by
  cases task with
  | start => exact wp_then (wp_mono (Runner.wp_start_booked ht hb) fun _ _ hb => hb)
  | wait patience timeout =>
      exact wp_then (wp_mono (Runner.wp_wait_booked hb patience timeout) fun _ _ hb => hb)
  | run patience =>
      exact wp_then (wp_mono (Runner.wp_run_booked ht hb patience) fun _ _ hb => hb)
  | abandon => exact wp_then (wp_mono (Runner.wp_abandon_booked hb) fun _ _ hb => hb)
  | write engine patience data =>
      exact wp_then (wp_mono (Engine.wp_write_booked ht hb patience data) fun _ _ hb => hb)
  | read engine patience buffer =>
      exact wp_then (wp_mono (Engine.wp_read_booked ht hb patience buffer) fun _ _ hb => hb)

end Books

/-! ## Any history of a runner -/

/-- What a runner of `image` comes to, and all that was asked on the way. It is not dropped. -/
inductive Life (image : A.Img) : Held A → Transcript A → Prop where
  /-- The image was accepted. -/
  | accept {r : Runner A} (pollInterval : Nat) (busy : Bool) :
      Runner.ofImage? image = .ok r → Life image ⟨{ r with pollInterval }, busy⟩ []
  /-- The runner does a task. -/
  | perform {h h' : Held A} {log log' : Transcript A} {error : Option Error} (task : Task) :
      Life image h log →
      (recorder A).Reaches (task.perform.run h) log (.done (error, h')) log' →
      Life image h' log'
  /-- Other runners use the target. -/
  | meanwhile {h : Held A} {log : Transcript A} (busy : Bool) :
      Life image h log → Life image { h with busy } log

/-- A target on which removals succeed. It may keep each breakpoint once, and refuse to add one that
    is there already, or keep as many as were added. -/
def pegs (A : Arch) : Environment A (Multiset (A.Addr × A.Kind)) where
  moves _ _ := False
  answers set op answer set' :=
    match op, answer with
    | .call (.addBreakpoint address kind), .ok true => set' = (address, kind) ::ₘ set
    | .call (.removeBreakpoint address kind), answer =>
        ((address, kind) ∈ set → answer = .ok true ∧ set = (address, kind) ::ₘ set') ∧
          ((address, kind) ∉ set → answer ≠ .ok true ∧ set' = set)
    | _, _ => set' = set

/-- On such a target breakpoints stay as they are while they are left alone. -/
theorem pegs_aside {set set' : Multiset (A.Addr × A.Kind)} {event : Event A}
    (hop : event.op.Aside) (h : (pegs A).answers set event.op event.answer set') : set' = set := by
  obtain ⟨op, answer⟩ := event
  cases op with
  -- every other call leaves the set as it is
  | call c => cases c <;> first | exact h | exact nomatch hop
  | _ => exact h

/-- Breakpoints, and the one that is owed. -/
def with? (owed? : Option (A.Addr × A.Kind)) (set : Multiset (A.Addr × A.Kind)) :
    Multiset (A.Addr × A.Kind) :=
  match owed? with
  | none => set
  | some breakpoint => breakpoint ::ₘ set

namespace Life

variable {image : A.Img} {h : Held A} {log : Transcript A} {support : Bool}

/-- Through all of its life, a runner's books are right. -/
theorem booked (hl : Life image h log) (support : Bool) :
    h.Tidy ∧ h.Booked support image.exit log := by
  induction hl with
  | accept pollInterval busy hacc =>
      obtain ⟨regs, -, -, rfl⟩ := Runner.eq_of_ofImage? hacc
      refine ⟨fun _ => ⟨rfl, rfl⟩, fun _ => ?_⟩
      exact ⟨balanced_nil, rfl, fun hne => absurd rfl hne, rfl,
        fun _ _ hm => absurd hm List.not_mem_nil⟩
  | perform task _ hreach ih =>
      refine ⟨(task.perform_tidy ih.1).of_reaches hreach, ?_⟩
      have hlasts : ∀ r : Option Error × Held A, (recorder A).Lasts (Fair support image.exit)
          (r.2.Booked support image.exit) := fun _ => lasts fun _ => Held.Booked.fair
      exact wp_done_at hlasts (task.wp_perform_booked ih.1 ih.2) hreach
  -- the guard is not in the books
  | meanwhile busy _ ih => exact ⟨ih.1, ih.2.congr rfl⟩

/-- On a target on which removals succeed, what is set is what was set at first and what is owed. -/
theorem plays_owed {earlier run : Transcript A} {set set' base : Multiset (A.Addr × A.Kind)}
    (hbal : Balanced (earlier ++ run)) (hplays : (pegs A).Plays set run set')
    (hset : set = with? earlier.owed base) : set' = with? (earlier ++ run).owed base := by
  have hstay : ∀ {set set'}, (pegs A).Plays set [] set' → set' = set := by
    intro set set' h
    cases h with
    | nil => rfl
    | move hm => exact hm.elim
  induction run using List.reverseRecOn generalizing set' with
  | nil =>
      rw [List.append_nil, hstay hplays]
      exact hset
  | append_singleton run event ih =>
      rw [← List.append_assoc] at hbal ⊢
      obtain ⟨set₁, hrun, hlast⟩ := plays_append.mp hplays
      obtain ⟨set₂, set₃, h₂, hanswers, h₃⟩ := hlast.first
      obtain rfl : set₂ = set₁ := hstay h₂
      obtain rfl : set' = set₃ := hstay h₃
      have hset₂ := ih hbal.of_append hrun
      have hevent : event.InOrder (earlier ++ run).owed := hbal _ event [] rfl
      rw [owed_append]
      by_cases hop : event.op.Aside
      · rw [owed_aside hop, ← hset₂]
        exact pegs_aside hop hanswers
      · obtain ⟨op, answer⟩ := event
        cases op with
        | call c =>
            cases c with
            | addBreakpoint address kind =>
                rw [hevent, with?] at hset₂
                subst hset₂
                match answer, hanswers with
                | .ok true, hset => exact hset
                | .ok false, hset => rw [hevent]; exact hset
                | .error _, hset => rw [hevent]; exact hset
            | removeBreakpoint address kind =>
                rw [hevent, with?] at hset₂
                have hmem : (address, kind) ∈ set₂ := hset₂ ▸ Multiset.mem_cons_self _ _
                obtain ⟨-, hcons⟩ := hanswers.1 hmem
                exact (Multiset.cons_inj_right _).mp (hcons.symm.trans hset₂)
            | _ => exact absurd rfl hop
        | _ => exact absurd rfl hop

/-- While a runner is not active, no breakpoint is owed. -/
theorem owed_idle (hl : Life image h log) (ht : log.Tells support)
    (hidle : h.runner.state.isActive = false) : log.owed = none := by
  obtain ⟨htidy, hb⟩ := hl.booked support
  rw [(hb ht).owed, Runner.outstanding, (htidy hidle).breakpoint]
  rfl

/-- EXIT BREAKPOINTS ARE OWNED AND BALANCED.  Whatever is done with a runner, and whatever is
    answered on a target whose support for breakpoints does not change: at every moment, what was
    removed was the breakpoint that the runner had set last, and no other was set before that.  What
    is owed is what the runner remembers, and that is nothing unless its algorithm is on the target.
    An algorithm that halts on its own has nothing to do with breakpoints.  Where removals succeed,
    the breakpoints after a run are those from before it, one at the exit point included. -/
theorem breakpoints_owned (hl : Life image h log) (ht : log.Tells support) :
    (log.Balanced ∧ log.owed = h.runner.outstanding ∧ (image.exit = 0 → log.Aside)) ∧
    (∀ (task : Task) (d : Dialogue A (Option Error × Held A)) (log' : Transcript A),
      (recorder A).Reaches (task.perform.run h) log d log' → log'.Tells support →
      log'.Balanced ∧ (image.exit = 0 → log'.Aside)) ∧
    (∀ (before : Transcript A) (address : A.Addr) (kind : A.Kind) (answer : Except TargetError Bool)
      (after : Transcript A),
      log = before ++ ⟨.call (.removeBreakpoint address kind), answer⟩ :: after →
      ∃ earlier, ∃ between : Transcript A,
        before = earlier ++ ⟨.call (.addBreakpoint address kind), .ok true⟩ :: between ∧
        between.Aside) ∧
    (h.runner.state.isActive = false →
      log.owed = none ∧
      (∀ (before : Transcript A) (address : A.Addr) (kind : A.Kind) (after : Transcript A),
        log = before ++ ⟨.call (.addBreakpoint address kind), .ok true⟩ :: after →
        ∃ between : Transcript A, ∃ answer later,
          after = between ++ ⟨.call (.removeBreakpoint address kind), answer⟩ :: later ∧
          between.Aside) ∧
      ∀ (earlier run : Transcript A) (h₀ : Held A) (set set' : Multiset (A.Addr × A.Kind)),
        Life image h₀ earlier → h₀.runner.state.isActive = false → log = earlier ++ run →
        (pegs A).Plays set run set' → set' = set) := by
  obtain ⟨htidy, hb⟩ := hl.booked support
  obtain ⟨hbal, howed, -, -, haside⟩ := hb ht
  refine ⟨⟨hbal, howed, haside⟩, ?_, ?_, fun hidle => ⟨hl.owed_idle ht hidle, ?_, ?_⟩⟩
  · intro task d log' hreach
    have hlasts : ∀ r : Option Error × Held A, (recorder A).Lasts (Fair support image.exit)
        (r.2.Booked support image.exit) := fun _ => lasts fun _ => Held.Booked.fair
    exact wp_at hlasts (task.wp_perform_booked htidy hb) hreach
  · rintro before address kind answer after rfl
    have hlast : before.owed = some (address, kind) := hbal before _ after rfl
    exact hbal.of_append.set_of_owed hlast
  · rintro before address kind after rfl
    rcases hbal.removed_of_set with ⟨-, ho⟩ | hremoved
    · exact nomatch ho.symm.trans (hl.owed_idle ht hidle)
    · exact hremoved
  · rintro earlier run h₀ set set' hl₀ hidle₀ rfl hplays
    have h₀ : earlier.owed = none := hl₀.owed_idle ht.of_append hidle₀
    have h₁ : owed (earlier ++ run) = none := hl.owed_idle ht hidle
    have hset : set = with? earlier.owed set := by rw [h₀, with?]
    rw [plays_owed hbal hplays hset, h₁, with?]

/-- An algorithm that is to be caught at its exit point. -/
def caughtImage : (plainCore 32).Img where
  entry := 0x1000
  exit := 0x1010
  info := ()

/-- A runner of it, after a start. -/
def caughtStarted : Held (plainCore 32) where
  runner :=
    { image := caughtImage
      regs := []
      saved := [(.pc, 0x40)]
      breakpoint := some 0x1010
      state := .started }
  busy := true

/-- It is started, and given up while it runs. -/
def givenUp : Transcript (plainCore 32) :=
  [⟨.call .poll, .ok .halted⟩, ⟨.call (.readReg .pc), .ok 0x40⟩, ⟨.feature .breakpoints, true⟩,
    ⟨.call (.addBreakpoint 0x1010 1), .ok true⟩, ⟨.note (.starting 0x1000 0x1010), ()⟩,
    ⟨.call (.resume (some 0x1000) .all), .ok ()⟩, ⟨.note (.abandoning 0x1000), ()⟩,
    ⟨.call .halt, .ok ()⟩, ⟨.feature .breakpoints, true⟩,
    ⟨.call (.removeBreakpoint 0x1010 1), .ok true⟩, ⟨.call .poll, .ok .running⟩]

theorem givenUp_life : Life caughtImage
    { runner := { image := caughtImage, regs := [], state := .aborted }, busy := false }
    givenUp := by
  have haccepted : Runner.ofImage? caughtImage =
      .ok ({ image := caughtImage, regs := [] } : Runner (plainCore 32)) := rfl
  have hstart : (recorder (plainCore 32)).Reaches
      (Task.start.perform.run ⟨{ image := caughtImage, regs := [] }, false⟩) []
      (.done (none, caughtStarted)) (givenUp.take 6) :=
    .answer (.ok .halted) rfl (.answer (.ok 0x40) rfl (.answer true rfl
      (.answer (.ok true) rfl (.answer () rfl (.answer (.ok ()) rfl (.refl _ _))))))
  have habandon : (recorder (plainCore 32)).Reaches (Task.abandon.perform.run caughtStarted)
      (givenUp.take 6)
      (.done (none, ⟨{ image := caughtImage, regs := [], state := .aborted }, false⟩)) givenUp :=
    .answer () rfl (.answer (.ok ()) rfl (.answer true rfl (.answer (.ok true) rfl
      (.answer (.ok .running) rfl (.refl _ _)))))
  exact .perform .abandon (.perform .start (.accept 1 false haccepted) hstart) habandon

/-- A target with a breakpoint at the exit point takes another one there, and gives it back. -/
theorem givenUp_plays : ∃ set', (pegs (plainCore 32)).Plays {(0x1010, 1)} givenUp set' := by
  refine ⟨{(0x1010, 1)}, .event _ rfl (.event _ rfl (.event _ rfl (.event _ rfl (.event _ rfl
    (.event _ rfl (.event _ rfl (.event _ rfl (.event _ rfl (.event _ ?_
    (.event _ rfl (.nil _)))))))))))⟩
  exact ⟨fun _ => ⟨rfl, rfl⟩, fun h => absurd (Multiset.mem_cons_self _ _) h⟩

theorem breakpoints_owned_shared : givenUp.owed = none ∧
    ∃ set', (pegs (plainCore 32)).Plays {(0x1010, 1)} givenUp set' ∧
      set' = {((0x1010 : BitVec 32), 1)} := by
  have ht : givenUp.Tells true := by
    simp [givenUp, Tells, Event.Tells]
  have haccepted : Runner.ofImage? caughtImage =
      .ok ({ image := caughtImage, regs := [] } : Runner (plainCore 32)) := rfl
  obtain ⟨-, -, -, hidle⟩ := breakpoints_owned givenUp_life ht
  obtain ⟨howed, -, hset⟩ := hidle rfl
  obtain ⟨set', hplays⟩ := givenUp_plays
  exact ⟨howed, set', hplays, hset [] givenUp _ _ _ (.accept 1 false haccepted) rfl rfl hplays⟩

end Life

end DebugLink
