import DebugLink.Proofs.Path
import DebugLink.Proofs.Runner.Failures

/-!
# How a wait ends

A wait watches the core, and either finds it halted and finishes the run, or gives up and leaves the
algorithm where it is.  Which of the two happened decides what becomes of the guard.

* `wait_parts` takes a wait apart: the clock, the watch, and what comes after it.  `Watched` is a
  watch, look by look.
* `finish_prompt`: what comes after a halt NEVER FAILS LIKE A WAIT THAT GAVE UP, so the error of a
  wait and its last poll tell which of the two happened (`GaveUp`).
* `wait_busy`: the target stays busy if and only if the wait gave up.
-/

namespace DebugLink

open Dialogue Transcript

variable {A : Arch} {α β : Type}

/-- A wait fails so if it gives up: at its deadline, or when the host shuts down. -/
def Error.Pending : Error → Prop
  | .timedOut | .interrupted => True
  | _ => False

/-- What the target refuses is no wait that gives up. -/
theorem Error.not_pending (e : TargetError) : ¬ (Error.ofTarget e).Pending := by
  cases e <;> exact id

/-- It does not fail like a wait that gives up. -/
def Prompt (r : Except Error α) : Prop :=
  ∀ err, r = .error err → ¬ err.Pending

/-- Nor is a mishap on the way. -/
theorem Error.Mishap.not_pending {err : Error} (h : err.Mishap) : ¬ err.Pending := by
  cases err <;> first | exact id | exact h.elim

/-- So a failure by a mishap is not one by patience. -/
theorem FailsAs.prompt {r : Except Error α} (h : FailsAs Error.Mishap r) : Prompt r :=
  fun err herr => (h err herr).not_pending

namespace Runner

/-! ## What comes after a halt -/

/-- Once the algorithm has halted, it is no longer on the target, and no error says otherwise. -/
theorem finish_prompt (h : Held A) :
    ((finish (A := A)).run.run h).Ends fun r => Prompt r.1 ∧ r.2.busy = false := by
  refine .seq (.outcome ((collect_fails h).mono ?_))
  rintro ⟨collected, h₁⟩ hr₁
  refine .seq (.outcome ((restoreContext_fails h₁).mono ?_))
  rintro ⟨restored, h₂⟩ hr₂
  have hboth : Prompt (collected *> restored) := (hr₁.seqRight hr₂).prompt
  dsimp only
  generalize collected *> restored = both at hboth ⊢
  cases both with
  | error err => exact ⟨fun _ heq => hboth _ heq, rfl⟩
  | ok _ => exact ⟨nofun, rfl⟩

/-! ## The parts of a wait -/

variable {h h' : Held A} {log : Transcript A} {patience timeout : Nat}

/-- What a wait makes of its watch. -/
def Concluded (h : Held A) (watched : Watch) (rest : Transcript A)
    (waited : Except Error Settled) (h' : Held A) : Prop :=
  match watched with
  | .undecided => rest = [] ∧ waited = .ok .undecided ∧ h' = h
  | .failed e => rest = [] ∧ waited = .error (.ofTarget e) ∧ h' = h
  | .shutdown => rest = [] ∧ waited = .error .interrupted ∧ h' = h
  | .expired => waited = .error .timedOut ∧ h' = { h with runner.state := .timedOut }
  | .halted => ∃ finished, ((finish (A := A)).run.run h).Path rest (finished, h') ∧
      waited = finished.map fun _ => .completed

/-- A wait for an algorithm that is on the target: a look at the clock, which sets the deadline, the
    watch, and what comes after it. -/
theorem wait_parts (hactive : h.runner.state.isActive = true) {waited : Except Error Settled} :
    ((wait (A := A) patience timeout).run.run h).Path log (waited, h') ↔
      ∃ (now : UInt64) (watching rest : Transcript A) (watched : Watch),
        log = ⟨.host .now, now⟩ :: (watching ++ rest) ∧
        (watch (min (now.toNat + timeout) 0xffffffffffffffff) h.runner.pollInterval patience :
          Dialogue A Watch).Path watching watched ∧
        Concluded h watched rest waited h' ∧
        (watched = .expired → rest = [⟨.note .timedOut, ()⟩]) := by
  show ((if (!h.runner.state.isActive) = true then _ else _ :
    RunM A Settled).run.run h).Path log (waited, h') ↔ _
  rw [hactive]
  constructor
  · intro run
    obtain ⟨now, rest, rfl, hrest⟩ := path_ask.mp run
    replace hrest : ((liftM (watch _ _ _) >>= _ : RunM A Settled).run.run h).Path rest
      (waited, h') := hrest
    rcases path_seq hrest with
      ⟨watching, rest, watched, h₁, rfl, hwatching, hafter⟩ | ⟨err, h₁, -, hwatching⟩
    · obtain ⟨watched, heq, hwatched⟩ := path_liftDialogue.mp hwatching
      cases heq
      refine ⟨now, watching, rest, watched, rfl, hwatched, ?_⟩
      cases watched with
      | expired =>
          obtain ⟨_, last, rfl, hlast⟩ := path_ask.mp hafter
          obtain ⟨rfl, heq⟩ := path_done.mp hlast
          cases heq
          exact ⟨⟨rfl, rfl⟩, fun _ => rfl⟩
      | halted =>
          refine ⟨?_, nofun⟩
          rcases path_seq hafter with
            ⟨l₁, l₂, _, h₂, rfl, hfinish, hdone⟩ | ⟨err, h₂, heq, hfinish⟩
          · obtain ⟨rfl, heq⟩ := path_done.mp hdone
            cases heq
            exact ⟨.ok (), by rwa [List.append_nil], rfl⟩
          · cases heq
            exact ⟨.error err, hfinish, rfl⟩
      | _ =>
          obtain ⟨rfl, heq⟩ := path_done.mp hafter
          cases heq
          exact ⟨⟨rfl, rfl, rfl⟩, nofun⟩
    · obtain ⟨watched, heq, -⟩ := path_liftDialogue.mp hwatching
      cases heq
  · rintro ⟨now, watching, rest, watched, rfl, hwatched, hconcluded, hnote⟩
    refine path_ask.mpr ⟨now, _, rfl, path_andThen (path_liftDialogue.mpr ⟨_, rfl, hwatched⟩) ?_⟩
    cases watched with
    | expired =>
        obtain ⟨rfl, rfl⟩ := hconcluded
        rw [hnote rfl]
        exact path_ask.mpr ⟨(), [], rfl, .done _⟩
    | halted =>
        obtain ⟨finished, hfinish, rfl⟩ := hconcluded
        rw [← List.append_nil rest]
        simp only [ExceptT.run_bind, StateT.run_bind]
        refine path_bind.mpr ⟨rest, [], _, rfl, hfinish, ?_⟩
        cases finished <;> exact .done _
    | _ =>
        obtain ⟨rfl, rfl, rfl⟩ := hconcluded
        exact .done _

/-- A wait is a number of polls, and an end. -/
theorem wait_path (hactive : h.runner.state.isActive = true) {waited : Except Error Settled}
    (run : ((wait (A := A) patience timeout).run.run h).Path log (waited, h')) :
    ∃ deadline now watching rest watched, log = ⟨.host .now, now⟩ :: (watching ++ rest) ∧
      (watch deadline h.runner.pollInterval patience : Dialogue A Watch).Path watching watched ∧
      Concluded h watched rest waited h' := by
  obtain ⟨now, watching, rest, watched, hlog, hwatched, hconcluded, -⟩ :=
    (wait_parts hactive).mp run
  exact ⟨_, now, watching, rest, watched, hlog, hwatched, hconcluded⟩

/-- A watch, look by look: it ends with a look that fails or finds the core halted, at the deadline,
    at the request of the host, or when its patience is used up. -/
inductive Watched (deadline interval : Nat) : Nat → Transcript A → Watch → Prop
  | undecided : Watched deadline interval 0 [] .undecided
  | failed {n : Nat} (e : TargetError) :
      Watched deadline interval (n + 1) [⟨.call .poll, .error e⟩] (.failed e)
  | halted {n : Nat} : Watched deadline interval (n + 1) [⟨.call .poll, .ok .halted⟩] .halted
  | expired {n : Nat} {state : ExecState} {now : UInt64} : state ≠ .halted →
      deadline ≤ now.toNat →
      Watched deadline interval (n + 1) [⟨.call .poll, .ok state⟩, ⟨.host .now, now⟩] .expired
  | shutdown {n : Nat} {state : ExecState} {now : UInt64} : state ≠ .halted →
      now.toNat < deadline →
      Watched deadline interval (n + 1)
        [⟨.call .poll, .ok state⟩, ⟨.host .now, now⟩, ⟨.host (.sleep interval), ()⟩,
          ⟨.host .keepAlive, ()⟩, ⟨.host .shutdownPending, true⟩] .shutdown
  | again {n : Nat} {state : ExecState} {now : UInt64} {rest : Transcript A} {watched : Watch} :
      state ≠ .halted → now.toNat < deadline → Watched deadline interval n rest watched →
      Watched deadline interval (n + 1)
        (⟨.call .poll, .ok state⟩ :: ⟨.host .now, now⟩ :: ⟨.host (.sleep interval), ()⟩ ::
          ⟨.host .keepAlive, ()⟩ :: ⟨.host .shutdownPending, false⟩ :: rest) watched

/-- What is left of a round once the core was found not to be halted. -/
theorem path_watch_waits {deadline interval n : Nat} {state : ExecState} (hs : state ≠ .halted)
    {watching : Transcript A} {watched : Watch} :
    (watch deadline interval (n + 1) : Dialogue A Watch).Path
        (⟨.call .poll, .ok state⟩ :: watching) watched ↔
      (do
        if deadline ≤ (← host .now).toNat then return Watch.expired
        host (.sleep interval)
        host .keepAlive
        if ← host .shutdownPending then return Watch.shutdown
        watch deadline interval n : Dialogue A Watch).Path watching watched := by
  refine path_ask.trans ⟨?_, fun h => ⟨_, watching, rfl, ?_⟩⟩
  · rintro ⟨_, rest, heq, h⟩
    cases heq
    cases state with
    | halted => exact absurd rfl hs
    | _ => exact h
  · cases state with
    | halted => exact absurd rfl hs
    | _ => exact h

/-- EVERY PATH OF A WATCH, and nothing else. -/
theorem path_watch {deadline interval : Nat} {watching : Transcript A} {watched : Watch} :
    (watch deadline interval patience : Dialogue A Watch).Path watching watched ↔
      Watched deadline interval patience watching watched := by
  constructor
  · intro run
    induction patience generalizing watching with
    | zero =>
        obtain ⟨rfl, rfl⟩ := path_done.mp run
        exact .undecided
    | succ patience ih =>
        obtain ⟨polled, l₁, rfl, h₁⟩ := path_ask.mp run
        rcases polled with e | state
        · obtain ⟨rfl, rfl⟩ := path_done.mp h₁
          exact .failed e
        by_cases hs : state = .halted
        · subst hs
          obtain ⟨rfl, rfl⟩ := path_done.mp h₁
          exact .halted
        obtain ⟨now, l₂, rfl, h₂⟩ := path_ask.mp ((path_watch_waits hs).mp run)
        replace h₂ : (if deadline ≤ UInt64.toNat now then _ else _ : Dialogue A Watch).Path l₂
          watched := h₂
        split at h₂
        · next hlate =>
          obtain ⟨rfl, rfl⟩ := path_done.mp h₂
          exact .expired hs hlate
        · next hearly =>
          obtain ⟨_, l₃, rfl, h₃⟩ := path_ask.mp h₂
          obtain ⟨_, l₄, rfl, h₄⟩ := path_ask.mp h₃
          obtain ⟨stop, l₅, rfl, h₅⟩ := path_ask.mp h₄
          cases stop with
          | true =>
              obtain ⟨rfl, rfl⟩ := path_done.mp h₅
              exact .shutdown hs (Nat.lt_of_not_le hearly)
          | false => exact .again hs (Nat.lt_of_not_le hearly) (ih h₅)
  · intro h
    induction h with
    | undecided => exact .done _
    | failed e => exact path_ask.mpr ⟨.error e, [], rfl, .done _⟩
    | halted => exact path_ask.mpr ⟨.ok .halted, [], rfl, .done _⟩
    | expired hs hlate =>
        refine (path_watch_waits hs).mpr (path_ask.mpr ⟨_, [], rfl, ?_⟩)
        show (if _ then _ else _ : Dialogue A Watch).Path _ _
        rw [if_pos hlate]
        exact .done _
    | shutdown hs hearly =>
        refine (path_watch_waits hs).mpr (path_ask.mpr ⟨_, _, rfl, ?_⟩)
        show (if _ then _ else _ : Dialogue A Watch).Path _ _
        rw [if_neg (Nat.not_le_of_lt hearly)]
        exact path_ask.mpr ⟨(), _, rfl, path_ask.mpr ⟨(), _, rfl,
          path_ask.mpr ⟨true, _, rfl, .done _⟩⟩⟩
    | again hs hearly _ ih =>
        refine (path_watch_waits hs).mpr (path_ask.mpr ⟨_, _, rfl, ?_⟩)
        show (if _ then _ else _ : Dialogue A Watch).Path _ _
        rw [if_neg (Nat.not_le_of_lt hearly)]
        exact path_ask.mpr ⟨(), _, rfl, path_ask.mpr ⟨(), _, rfl, path_ask.mpr ⟨false, _, rfl, ih⟩⟩⟩

/-- The look that ends a watch. -/
def Watch.look? : Watch → Option (Event A)
  | .halted => some ⟨.call .poll, .ok .halted⟩
  | .failed e => some ⟨.call .poll, .error e⟩
  | _ => none

/-- A watch that a look ended ends with that look. -/
theorem watch_last {deadline interval : Nat} {watching : Transcript A} {watched : Watch}
    (run : (watch deadline interval patience : Dialogue A Watch).Path watching watched)
    {event : Event A} (hlook : watched.look? = some event) :
    ∃ before, watching = before ++ [event] := by
  induction path_watch.mp run with
  | failed e => exact ⟨[], congrArg (fun event => [event]) (Option.some.inj hlook)⟩
  | halted => exact ⟨[], congrArg (fun event => [event]) (Option.some.inj hlook)⟩
  | again _ _ hrest ih =>
      obtain ⟨before, rfl⟩ := ih (path_watch.mpr hrest) hlook
      exact ⟨_ :: _ :: _ :: _ :: _ :: before, rfl⟩
  | _ => exact nomatch hlook

/-- The wait did not find the core halted: it timed out, was interrupted, or failed with its last
    look at the core. -/
def GaveUp (waiting : Transcript A) (waited : Except Error Settled) : Prop :=
  ∃ err, waited = .error err ∧
    (err.Pending ∨ ∃ e, err = .ofTarget e ∧ waiting.getLast? = some ⟨.call .poll, .error e⟩)

/-- AFTER A WAIT THE TARGET IS BUSY if and only if the wait gave up, or has not come to an end. -/
theorem wait_busy (hactive : h.runner.state.isActive = true) (hbusy : h.busy = true)
    {waited : Except Error Settled}
    (run : ((wait (A := A) patience timeout).run.run h).Path log (waited, h')) :
    h'.busy = true ↔ GaveUp log waited ∨ waited = .ok .undecided := by
  obtain ⟨deadline, now, watching, rest, watched, rfl, hwatch, hconcluded⟩ :=
    wait_path hactive run
  cases watched with
  | undecided =>
      obtain ⟨-, rfl, rfl⟩ := hconcluded
      exact ⟨fun _ => Or.inr rfl, fun _ => hbusy⟩
  | failed e =>
      obtain ⟨rfl, rfl, rfl⟩ := hconcluded
      obtain ⟨before, rfl⟩ := watch_last hwatch rfl
      refine ⟨fun _ => Or.inl ⟨_, rfl, Or.inr ⟨e, rfl, ?_⟩⟩, fun _ => hbusy⟩
      rw [List.append_nil, ← List.cons_append, List.getLast?_concat]
  | shutdown =>
      obtain ⟨-, rfl, rfl⟩ := hconcluded
      exact ⟨fun _ => Or.inl ⟨_, rfl, Or.inl trivial⟩, fun _ => hbusy⟩
  | expired =>
      obtain ⟨rfl, rfl⟩ := hconcluded
      exact ⟨fun _ => Or.inl ⟨_, rfl, Or.inl trivial⟩, fun _ => hbusy⟩
  | halted =>
      obtain ⟨finished, hfinish, rfl⟩ := hconcluded
      obtain ⟨-, hprompt, hfree⟩ := (finish_prompt h).path hfinish
      obtain ⟨hquiet, -⟩ := (finish_quiet h).kind.path hfinish
      obtain ⟨before, rfl⟩ := watch_last hwatch rfl
      constructor
      · intro hup
        exact absurd hup (by rw [hfree]; exact Bool.false_ne_true)
      · rintro (⟨err, hwaited, hpending | ⟨e, -, hlast⟩⟩ | hwaited)
        · cases finished with
          | ok _ => cases hwaited
          | error err =>
              obtain rfl := Except.error.inj hwaited
              exact absurd hpending (hprompt _ rfl)
        · -- the last look found the core halted, and nobody looked after that
          rcases List.eq_nil_or_concat rest with rfl | ⟨l, last, rfl⟩
          · rw [List.append_nil, ← List.cons_append, List.getLast?_concat] at hlast
            cases hlast
          · rw [List.concat_eq_append] at hlast hquiet
            rw [← List.append_assoc, ← List.cons_append, List.getLast?_concat] at hlast
            have hlook : last.op.Quiet :=
              hquiet last (List.mem_append_right _ (List.mem_singleton_self _))
            rw [Option.some.inj hlast] at hlook
            exact False.elim hlook
        · cases finished <;> cases hwaited

end Runner

end DebugLink
