import DebugLink.Proofs.Runner.Endings
import DebugLink.Proofs.Transfer.Rounds

/-!
# How long a wait goes on after it is asked to stop

A host that wants to stop says so when it is asked, and nothing else tells the library.  So all
depends on how often it asks.  The rule is: BETWEEN TWO SUSPENSIONS IT ASKS, AND IS TOLD TO GO ON.

* `Spaced p log`: between any two marks `p` of the transcript somebody said "go on"; `Free p log`:
  after the last one too, so that one more mark does no harm (`Free.append`).
* `Spaced.curbed`: from wherever on nobody says "go on", at most ONE more mark comes.
* `wp_watch_spaced` keeps the rule from look to look, and `wp_wait_spaced` for a whole wait: what
  follows the halt asks nothing of the host.
-/

namespace DebugLink

open Environment Transcript Dialogue

variable {A : Arch}

/-- The host is asked whether it is shutting down, and is not. -/
abbrev Event.goOn : Event A := ⟨.host .shutdownPending, false⟩

/-- The host suspends itself: it sleeps, or lets the rest of the process work, not just after it
    has slept. -/
def Event.Suspends (before : Transcript A) (event : Event A) : Prop :=
  event.pauses = true ∨
    event.op = .host .keepAlive ∧ ∀ last, before.getLast? = some last → last.pauses = false

/-! ## Spacing -/

namespace Transcript

/-- Nobody says "go on" any more. -/
def Cancelled (log : Transcript A) : Prop :=
  Event.goOn ∉ log

/-- Between any two events that `p` marks somebody said "go on". -/
def Spaced (p : Transcript A → Event A → Prop) (log : Transcript A) : Prop :=
  ∀ before first between second after, log = before ++ first :: (between ++ second :: after) →
    p before first → p (before ++ first :: between) second → Event.goOn ∈ between

/-- After the last one as well. -/
structure Free (p : Transcript A → Event A → Prop) (log : Transcript A) : Prop where
  spaced : log.Spaced p
  since : ∀ before first after, log = before ++ first :: after → p before first →
    Event.goOn ∈ after

/-- From wherever on nobody says "go on", there are at most `n` more events of the kind `q`. -/
def Curbed (q : Event A → Bool) (n : Nat) (log : Transcript A) : Prop :=
  ∀ early late, log = early ++ late → late.Cancelled → late.countP q ≤ n

variable {p : Transcript A → Event A → Prop} {q : Event A → Bool} {log more : Transcript A}
  {event : Event A} {n m : Nat}

theorem free_nil : Free p ([] : Transcript A) :=
  ⟨fun before _ _ _ _ h => absurd h (by simp), fun before _ _ h => absurd h (by simp)⟩

/-- One more mark. -/
theorem Free.append (h : log.Free p) (event : Event A) : Spaced p (log ++ [event]) := by
  intro before first between second after heq hfirst hsecond
  rw [← List.cons_append, ← List.append_assoc] at heq
  rcases split_last heq with ⟨hlog, -, -⟩ | ⟨after', hlog, -⟩
  · exact h.since before first between hlog hfirst
  · refine h.spaced before first between second after' ?_ hfirst hsecond
    rw [hlog, List.append_assoc, List.cons_append]

/-- One more event that is not marked. -/
theorem Spaced.append (h : log.Spaced p) (hnot : ¬ p log event) : Spaced p (log ++ [event]) := by
  intro before first between second after heq hfirst hsecond
  rw [← List.cons_append, ← List.append_assoc] at heq
  rcases split_last heq with ⟨hlog, rfl, -⟩ | ⟨after', hlog, -⟩
  · exact absurd (hlog ▸ hsecond) hnot
  · refine h before first between second after' ?_ hfirst hsecond
    rw [hlog, List.append_assoc, List.cons_append]

/-- What does not count may come at any time. -/
theorem Free.append_other (h : log.Free p) (hnot : ¬ p log event) : Free p (log ++ [event]) := by
  refine ⟨h.spaced.append hnot, fun before first after heq hfirst => ?_⟩
  rcases split_last heq with ⟨rfl, rfl, -⟩ | ⟨after', hlog, rfl⟩
  · exact absurd hfirst hnot
  · exact List.mem_append_left _ (h.since before first after' hlog hfirst)

/-- Somebody says "go on". -/
theorem Spaced.goOn (h : log.Spaced p) (hnot : ¬ p log .goOn) : Free p (log ++ [.goOn]) := by
  refine ⟨h.append hnot, fun before first after heq hfirst => ?_⟩
  rcases split_last heq with ⟨rfl, rfl, -⟩ | ⟨after', -, rfl⟩
  · exact absurd hfirst hnot
  · exact List.mem_append_right _ (List.mem_singleton_self _)

/-- What operations in `K` never do. -/
theorem kept_spaced {K : Op A → Prop}
    (hK : ∀ {log : Transcript A} {op : Op A} (a : op.Answer), K op → ¬ p log ⟨op, a⟩) :
    Kept K (fun _ => True) (Spaced p) where
  event := fun a hop h => h.append (hK a hop)
  holds := fun _ => trivial

/-! ## What spacing is good for -/

/-- Two of a kind. -/
theorem two_of_countP (h : 2 ≤ log.countP q) : ∃ before first between second after,
    log = before ++ first :: (between ++ second :: after) ∧ q first = true ∧ q second = true := by
  induction log with
  | nil => exact absurd h (by simp)
  | cons event log ih =>
      rw [List.countP_cons] at h
      cases hq : q event with
      | true =>
          rw [hq] at h
          obtain ⟨second, hm, hsecond⟩ := List.countP_pos_iff.mp (show 0 < log.countP q by grind)
          obtain ⟨between, after, rfl⟩ := List.append_of_mem hm
          exact ⟨[], event, between, second, after, rfl, hq, hsecond⟩
      | false =>
          rw [hq] at h
          obtain ⟨before, first, between, second, after, rfl, hfirst, hsecond⟩ := ih h
          exact ⟨event :: before, first, between, second, after, rfl, hfirst, hsecond⟩

/-- At most one more. -/
theorem Spaced.curbed (h : log.Spaced p) (hq : ∀ before event, q event = true → p before event) :
    log.Curbed q 1 := by
  rintro early late rfl hlate
  refine Nat.le_of_not_lt fun htwo => ?_
  obtain ⟨before, first, between, second, after, rfl, hfirst, hsecond⟩ := two_of_countP htwo
  have hgo : Event.goOn ∈ between :=
    h (early ++ before) first between second after (by simp) (hq _ _ hfirst) (hq _ _ hsecond)
  exact hlate (by simp [hgo])

/-- None at all. -/
theorem curbed_none (h : ∀ event ∈ log, q event = false) : log.Curbed q 0 := by
  rintro early late rfl -
  refine Nat.le_of_eq (List.countP_eq_zero.mpr fun event hm => ?_)
  rw [h event (List.mem_append_right _ hm)]
  exact Bool.false_ne_true

/-- Where the last answer is "go on", there is nothing left to cancel. -/
theorem Cancelled.eq_nil {early late : Transcript A} (h : late.Cancelled)
    (hlast : (early ++ late).getLast? = some .goOn) : late = [] := by
  refine Decidable.byContradiction fun hne => h ?_
  rw [List.getLast?_append_of_ne_nil _ hne] at hlast
  exact List.mem_of_getLast? hlast

/-- Limits add up. -/
theorem Curbed.append (h : log.Curbed q n) (h' : more.Curbed q m) :
    Curbed q (n + m) (log ++ more) := by
  intro early late heq hlate
  rcases List.append_eq_append_iff.mp heq with ⟨early', rfl, hmore⟩ | ⟨late', hlog, rfl⟩
  · exact Nat.le_trans (h' early' late hmore hlate) (Nat.le_add_left m n)
  · rw [List.countP_append]
    refine Nat.add_le_add (h early late' hlog fun hm => ?_) (h' [] more rfl fun hm => ?_)
    · exact hlate (List.mem_append_left _ hm)
    · exact hlate (List.mem_append_right _ hm)

end Transcript

/-! ## The watch -/

namespace Runner

variable {h h' : Held A} {log : Transcript A} {patience timeout : Nat}

/-- What asks nothing of the host does not suspend it. -/
theorem not_suspends {K : Op A → Prop} {before : Transcript A} {op : Op A} (a : op.Answer)
    (hop : op.Inwardly K) : ¬ Event.Suspends before ⟨op, a⟩ := by
  rintro (hsleep | ⟨rfl, -⟩)
  · cases op with
    | host r => exact hop
    | _ => exact Bool.false_ne_true hsleep
  · exact hop

/-- The host is suspended by its sleep, and by nothing else. -/
theorem not_suspends_host {before : Transcript A} {r : HostRequest}
    (a : (Op.host (A := A) r).Answer) (hsleep : ∀ ms, r ≠ .sleep ms)
    (halive : r ≠ .keepAlive) : ¬ Event.Suspends before ⟨.host r, a⟩ := by
  rintro (h | ⟨h, -⟩)
  · cases r with
    | sleep ms => exact hsleep ms rfl
    | _ => exact Bool.false_ne_true h
  · exact halive (Op.host.inj h)

/-- The keep-alive behind a sleep is no suspension of its own. -/
theorem not_suspends_slept {ms : Nat} :
    ¬ Event.Suspends (log ++ [⟨.host (.sleep ms), ()⟩]) ⟨.host .keepAlive, ()⟩ := by
  rintro (h | ⟨-, h⟩)
  · exact Bool.false_ne_true h
  · exact Bool.false_ne_true (h _ List.getLast?_concat).symm

/-- Every look is followed by a question, and the watch goes on if the answer is "go on". -/
theorem wp_watch_spaced (deadline interval : Nat) (hlog : log.Free Event.Suspends) :
    (recorder A).wp (fun _ => True) (watch deadline interval patience)
      (fun watched log' => log'.Spaced Event.Suspends ∧ (watched = .undecided →
        patience = 0 ∧ log' = log ∨ log'.getLast? = some .goOn)) log := by
  induction patience generalizing log with
  | zero => exact ⟨hlog.spaced, fun _ => Or.inl ⟨rfl, rfl⟩⟩
  | succ patience ih =>
      have hpoll : ∀ answer, Free Event.Suspends (log ++ [⟨.call .poll, answer⟩]) :=
        fun answer => hlog.append_other (not_suspends (K := fun _ => True) answer trivial)
      refine wp_op trivial ?_
      rintro (e | state)
      · exact ⟨(hpoll _).spaced, nofun⟩
      · replace hpoll := hpoll (.ok state)
        cases state with
        | halted => exact ⟨hpoll.spaced, nofun⟩
        | _ =>
            refine wp_op trivial fun now => ?_
            replace hpoll := hpoll.append_other
              (not_suspends_host now (fun _ => nofun) nofun : ¬ Event.Suspends _ _)
            show (recorder A).wp _ (if deadline ≤ UInt64.toNat now then _ else _) _ _
            split
            · exact ⟨hpoll.spaced, nofun⟩
            · refine wp_op trivial fun _ => wp_op trivial fun _ => wp_op trivial fun stop => ?_
              have hpaused := (hpoll.append ⟨.host (.sleep interval), ()⟩).append not_suspends_slept
              cases stop with
              | true =>
                  exact ⟨hpaused.append (not_suspends_host _ (fun _ => nofun) nofun), nofun⟩
              | false =>
                  have hfree := hpaused.goOn (not_suspends_host _ (fun _ => nofun) nofun)
                  refine wp_mono (ih hfree) ?_
                  rintro watched log' ⟨hspaced, hlast⟩
                  refine ⟨hspaced, fun hu => ?_⟩
                  rcases hlast hu with ⟨-, rfl⟩ | hlast
                  · exact Or.inr List.getLast?_concat
                  · exact Or.inr hlast

/-- How a wait ends that heeds the host: its transcript is spaced, it stays open only if the last
    answer was "go on", and if it is interrupted, nothing has changed. -/
def Heeded (patience : Nat) (h : Held A) (r : Except Error Settled × Held A)
    (log : Transcript A) : Prop :=
  log.Spaced Event.Suspends ∧
    (r.1 = .ok .undecided → patience = 0 ∨ log.getLast? = some .goOn) ∧
    (r.1 = .error .interrupted → r.2 = h)

/-- A wait suspends itself only between its polls. -/
theorem wp_wait_spaced (h : Held A) (patience timeout : Nat) :
    (recorder A).wp (fun _ => True) ((wait (A := A) patience timeout).run.run h)
      (Heeded patience h) [] := by
  show (recorder A).wp _ ((if (!h.runner.state.isActive) = true then _ else _ :
    RunM A Settled).run.run h) _ _
  split
  · exact ⟨free_nil.spaced, nofun, nofun⟩
  · refine wp_op trivial fun now => ?_
    have hnow : Free Event.Suspends ([] ++ [⟨.host .now, now⟩] : Transcript A) :=
      free_nil.append_other (not_suspends_host _ (fun _ => nofun) nofun)
    refine wp_seq (wp_liftDialogue (wp_mono (wp_watch_spaced _ _ hnow) ?_))
    rintro watched log ⟨hspaced, hlast⟩
    cases watched with
    | undecided => exact ⟨hspaced, fun _ => (hlast rfl).imp_left And.left, nofun⟩
    | failed e =>
        refine ⟨hspaced, nofun, fun hpending => ?_⟩
        exact absurd (Except.error.inj hpending ▸ trivial : (Error.ofTarget e).Pending)
          (Error.not_pending e)
    | shutdown => exact ⟨hspaced, nofun, fun _ => rfl⟩
    | expired =>
        refine wp_op trivial fun told => ⟨hspaced.append ?_, nofun, nofun⟩
        exact not_suspends (K := fun _ => True) told trivial
    | halted =>
        have hfinish := wp_and
          (wp_within (kept_spaced fun {_ _} a hop => not_suspends a hop) (finish_quiet h) hspaced)
          (wp_of_within (finish_prompt h) log)
        refine wp_seq (wp_mono hfinish ?_)
        rintro ⟨e | _, h'⟩ log ⟨⟨hspaced, -⟩, hprompt, -⟩
        · refine ⟨hspaced, nofun, fun hpending => ?_⟩
          exact absurd trivial (hprompt .interrupted (congrArg _ (Except.error.inj hpending)))
        · exact ⟨hspaced, nofun, nofun⟩

/-- Every wait heeds the host. -/
theorem wait_heeds {waited : Except Error Settled}
    (run : ((wait (A := A) patience timeout).run.run h).Path log (waited, h')) :
    Heeded patience h (waited, h') log :=
  wp_path (fun _ _ _ => trivial) (wp_wait_spaced h patience timeout) run

/-- Once nobody says "go on" any more, it comes to an end. -/
theorem Heeded.ends {r : Except Error Settled × Held A} (hheeded : Heeded patience h r log)
    (hpatience : 0 < patience) {early late : Transcript A} (hlog : log = early ++ late)
    (hlate : late.Cancelled) (hne : late ≠ []) : r.1 ≠ .ok .undecided := by
  intro hu
  rcases hheeded.2.1 hu with hz | hlast
  · exact Nat.ne_of_gt hpatience hz
  · exact hne (hlate.eq_nil (hlog ▸ hlast))

end Runner

end DebugLink
