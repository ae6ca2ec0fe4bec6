import DebugLink.Arch.Plain
import DebugLink.Proofs.Runner.Endings
import DebugLink.Proofs.Transfer.Rounds
import Mathlib.Algebra.Order.Floor.Div

/-!
# What a deadline means

A wait knows of time only what the host's clock says, and the clock may jump ahead by any amount
whenever it is not looked at.  What is certain is that each sleep takes as long as it is meant to,
and that NOBODY SLEEPS AGAIN ONCE THE DEADLINE HAS PASSED.

* `clock` is a host whose clock never goes back and never comes to its end; targets may answer
  anything.
* `Watched.slept` is the measure: when the last sleep began, all the others were over, and the
  deadline was still ahead.  The induction is on the rounds of a watch, and nothing is said about
  how long a round takes.
* A look at the core comes before every look at the clock but the one that sets the deadline
  (`Watched.looks_first`), so that a halt is never taken for a delay.
-/

namespace DebugLink

open Environment Dialogue Transcript

variable {A : Arch}

/-- What the looks at the core found. -/
def Transcript.polled (log : Transcript A) : List (Except TargetError ExecState) :=
  log.filterMap Event.poll?

/-- A host whose clock never goes back and never comes to its end.  The state is what the clock
    says.  Time passes with whatever happens, and sleeping takes at least as long as it was meant
    to. -/
def clock (A : Arch) : Environment A Nat where
  moves w w' := w ≤ w'
  answers w op a w' := w ≤ w' ∧
    match op, a with
    | .host .now, now => now.toNat = w ∧ w < 0xffffffffffffffff
    | .host (.sleep ms), _ => w + ms ≤ w'
    | _, _ => True

section Clock

variable {w w' : Nat} {log : Transcript A} {event : Event A}

/-- The clock does not go back. -/
theorem clock_le (h : (clock A).Plays w log w') : w ≤ w' := by
  induction h with
  | nil w => exact Nat.le_refl w
  | move hm _ ih => exact Nat.le_trans hm ih
  | event _ ha _ ih => exact Nat.le_trans ha.1 ih

/-- The first event, and the time that has passed by then. -/
theorem clock_first (h : (clock A).Plays w (event :: log) w') :
    ∃ w₁ w₂, w ≤ w₁ ∧ (clock A).answers w₁ event.op event.answer w₂ ∧
      (clock A).Plays w₂ log w' := by
  obtain ⟨w₁, w₂, hbefore, ha, hafter⟩ := h.first
  exact ⟨w₁, w₂, clock_le hbefore, ha, hafter⟩

/-- A look at the clock. -/
theorem clock_now {now : UInt64} (h : (clock A).Plays w (⟨.host .now, now⟩ :: log) w') :
    ∃ w₁, w ≤ now.toNat ∧ now.toNat < 0xffffffffffffffff ∧ now.toNat ≤ w₁ ∧
      (clock A).Plays w₁ log w' := by
  obtain ⟨w₁, w₂, hle, ⟨hpassed, hnow, hend⟩, hafter⟩ := clock_first h
  have hnow : now.toNat = w₁ := hnow
  exact ⟨w₂, by omega, by omega, by omega, hafter⟩

/-- Anything else. -/
theorem clock_other (h : (clock A).Plays w (event :: log) w') :
    ∃ w₁, w ≤ w₁ ∧ (clock A).Plays w₁ log w' := by
  obtain ⟨w₁, w₂, hle, ⟨hpassed, -⟩, hafter⟩ := clock_first h
  exact ⟨w₂, Nat.le_trans hle hpassed, hafter⟩

/-- A sleep. -/
theorem clock_sleep {ms : Nat} (h : (clock A).Plays w (⟨.host (.sleep ms), ()⟩ :: log) w') :
    ∃ w₁, w + ms ≤ w₁ ∧ (clock A).Plays w₁ log w' := by
  obtain ⟨w₁, w₂, hle, ⟨-, hslept⟩, hafter⟩ := clock_first h
  have hslept : w₁ + ms ≤ w₂ := hslept
  exact ⟨w₂, by omega, hafter⟩

/-- A look at the core that finds it not halted, and all that comes before the next one. -/
theorem clock_round {answer : Except TargetError ExecState} {now : UInt64} {ms : Nat} {stop : Bool}
    (h : (clock A).Plays w (⟨.call .poll, answer⟩ :: ⟨.host .now, now⟩ :: ⟨.host (.sleep ms), ()⟩ ::
      ⟨.host .keepAlive, ()⟩ :: ⟨.host .shutdownPending, stop⟩ :: log) w') :
    w ≤ now.toNat ∧ ∃ w₁, w + ms ≤ w₁ ∧ (clock A).Plays w₁ log w' := by
  obtain ⟨w₁, hpoll, h⟩ := clock_other h
  obtain ⟨w₂, hnow, -, hpassed, h⟩ := clock_now h
  obtain ⟨w₃, hslept, h⟩ := clock_sleep h
  obtain ⟨w₄, hkept, h⟩ := clock_other h
  obtain ⟨w₅, hasked, h⟩ := clock_other h
  exact ⟨by omega, w₅, by omega, h⟩

end Clock

/-! ## What comes after a halt -/

section Unseen

variable {log more : Transcript A}

/-- Polls are read off in their order. -/
theorem polled_append : polled (log ++ more) = log.polled ++ more.polled :=
  List.filterMap_append

variable {answer : Except TargetError ExecState} {now : UInt64} {ms : Nat} {stop : Bool}

theorem polled_round : polled (⟨.call .poll, answer⟩ :: ⟨.host .now, now⟩ ::
    ⟨.host (.sleep ms), ()⟩ :: ⟨.host .keepAlive, ()⟩ :: ⟨.host .shutdownPending, stop⟩ :: log) =
      answer :: log.polled :=
  rfl

theorem pauses_round : pauses (⟨.call .poll, answer⟩ :: ⟨.host .now, now⟩ ::
    ⟨.host (.sleep ms), ()⟩ :: ⟨.host .keepAlive, ()⟩ :: ⟨.host .shutdownPending, stop⟩ :: log) =
      log.pauses + 1 := by
  simp [pauses, List.countP_cons, Event.pauses]

/-- Of the two, the second is a look at the clock only if the first found the core not halted. -/
def Event.LooksFirst (first second : Event A) : Prop :=
  ∀ now, second = ⟨.host .now, now⟩ →
    ∃ state, state ≠ .halted ∧ first = ⟨.call .poll, .ok state⟩

theorem looksFirst_other {first second : Event A} (h : second.op ≠ .host .now) :
    first.LooksFirst second := by
  rintro now rfl
  exact absurd rfl h

/-- Nobody looks at the clock. -/
theorem looksFirst_blind (h : ∀ event ∈ log, event.op ≠ .host .now) (first : Event A) :
    (first :: log).IsChain Event.LooksFirst := by
  induction log generalizing first with
  | nil => exact .singleton first
  | cons second log ih =>
      obtain ⟨hsecond, hlog⟩ := List.forall_mem_cons.mp h
      exact .cons_cons (looksFirst_other hsecond) (ih hlog second)

/-- Nobody looks at anything, and nobody sleeps. -/
structure Transcript.Unseen (log : Transcript A) : Prop where
  polled : log.polled = []
  pauses : log.pauses = 0
  clock : ∀ event ∈ log, event.op ≠ .host .now

/-- What is quiet neither polls nor suspends the host. -/
theorem unseen_of_quiet (h : ∀ event ∈ log, event.op.Inwardly Op.Quiet) : log.Unseen where
  polled := by
    refine List.filterMap_eq_nil_iff.mpr fun event hm => ?_
    have hquiet := h event hm
    unfold Event.poll?
    split
    · exact hquiet.elim
    · rfl
  pauses := by
    refine List.countP_eq_zero.mpr fun event hm => ?_
    have hquiet := h event hm
    unfold Event.pauses
    split
    · exact hquiet.elim
    · exact Bool.false_ne_true
  clock := by
    intro event hm hop
    have hquiet := h event hm
    rw [hop] at hquiet
    exact hquiet

end Unseen

namespace Runner

variable {deadline interval n : Nat} {log watching : Transcript A} {watched : Watch}

/-! ## Rounds of a watch -/

namespace Watched

/-- One more look than sleeps, at most. -/
theorem polls_le (h : Watched deadline interval n watching watched) :
    watching.polled.length ≤ watching.pauses + 1 := by
  induction h with
  | again _ _ _ ih =>
      rw [polled_round, pauses_round, List.length_cons]
      exact Nat.succ_le_succ ih
  | undecided => exact Nat.zero_le 1
  | _ => exact Nat.le_add_left 1 _

/-- As long as nothing ends it, it sleeps after each look. -/
theorem pauses_of_undecided (h : Watched deadline interval n watching watched)
    (hu : watched = .undecided) : watching.pauses = n := by
  induction h with
  | undecided => rfl
  | again _ _ _ ih => rw [pauses_round, ih hu]
  | _ => exact nomatch hu

/-- It begins with a look, unless it has no patience at all. -/
theorem polls_pos (h : Watched deadline interval n watching watched) (hn : 0 < n) :
    0 < watching.polled.length := by
  cases h with
  | undecided => exact absurd hn (Nat.lt_irrefl 0)
  | _ => exact Nat.succ_pos _

/-- Patience for one more look changes nothing about a watch that has come to an end. -/
theorem succ (h : Watched deadline interval n watching watched) (hu : watched ≠ .undecided) :
    Watched deadline interval (n + 1) watching watched := by
  induction h with
  | undecided => exact absurd rfl hu
  | failed e => exact .failed e
  | halted => exact .halted
  | expired hs hlate => exact .expired hs hlate
  | shutdown hs hearly => exact .shutdown hs hearly
  | again hs hearly _ ih => exact .again hs hearly (ih hu)

/-- A watch that was decided does not need the patience that is left. -/
theorem more (h : Watched deadline interval n watching watched) (hu : watched ≠ .undecided)
    {m : Nat} (hm : n ≤ m) : Watched deadline interval m watching watched := by
  induction hm with
  | refl => exact h
  | step _ ih => exact ih.succ hu

/-- A core that is seen halted is not overlooked. -/
theorem halted_of_polled (h : Watched deadline interval n watching watched)
    (hhalted : .ok .halted ∈ watching.polled) : watched = .halted := by
  induction h with
  | undecided => exact absurd hhalted List.not_mem_nil
  | failed e => exact nomatch List.mem_singleton.mp hhalted
  | halted => rfl
  | expired hs _ => exact absurd (Except.ok.inj (List.mem_singleton.mp hhalted)).symm hs
  | shutdown hs _ => exact absurd (Except.ok.inj (List.mem_singleton.mp hhalted)).symm hs
  | again hs _ _ ih =>
      rcases List.mem_cons.mp hhalted with heq | hhalted
      · exact absurd (Except.ok.inj heq).symm hs
      · exact ih hhalted

/-- The last look of a watch that has expired found the core not halted. -/
theorem last_of_expired (h : Watched deadline interval n watching watched)
    (hexpired : watched = .expired) :
    ∃ state, state ≠ .halted ∧ watching.polled.getLast? = some (.ok state) := by
  induction h with
  | expired hs _ => exact ⟨_, hs, rfl⟩
  | again _ _ _ ih =>
      obtain ⟨state, hs, hlast⟩ := ih hexpired
      refine ⟨state, hs, ?_⟩
      rw [polled_round, List.getLast?_cons, hlast]
      rfl
  | _ => exact nomatch hexpired

/-- It looks at the core before it looks at the clock, and nobody looks at the clock after it. -/
theorem looks_first (h : Watched deadline interval n watching watched) {rest : Transcript A}
    (hrest : ∀ event ∈ rest, event.op ≠ .host .now) (first : Event A) :
    (first :: (watching ++ rest)).IsChain Event.LooksFirst := by
  induction h generalizing first with
  | undecided => exact looksFirst_blind hrest first
  | failed e => exact .cons_cons (looksFirst_other nofun) (looksFirst_blind hrest _)
  | halted => exact .cons_cons (looksFirst_other nofun) (looksFirst_blind hrest _)
  | expired hs _ =>
      exact .cons_cons (looksFirst_other nofun) (.cons_cons (fun _ _ => ⟨_, hs, rfl⟩)
        (looksFirst_blind hrest _))
  | shutdown hs _ =>
      exact .cons_cons (looksFirst_other nofun) (.cons_cons (fun _ _ => ⟨_, hs, rfl⟩)
        (.cons_cons (looksFirst_other nofun) (.cons_cons (looksFirst_other nofun)
          (.cons_cons (looksFirst_other nofun) (looksFirst_blind hrest _)))))
  | again hs _ _ ih =>
      exact .cons_cons (looksFirst_other nofun) (.cons_cons (fun _ _ => ⟨_, hs, rfl⟩)
        (.cons_cons (looksFirst_other nofun) (.cons_cons (looksFirst_other nofun)
          (.cons_cons (looksFirst_other nofun) (ih _)))))

/-! ## By the clock -/

variable {w w' : Nat}

/-- WHEN THE LAST SLEEP BEGAN, the others were over, and the deadline was still ahead. -/
theorem slept (h : Watched deadline interval n watching watched)
    (hplays : (clock A).Plays w watching w') {k : Nat} (hk : watching.pauses = k + 1) :
    w + interval * k < deadline := by
  induction h generalizing w k with
  | shutdown _ hearly =>
      obtain rfl : 0 = k := Nat.succ.inj hk
      obtain ⟨hnow, -⟩ := clock_round hplays
      omega
  | @again _ _ _ rest _ _ hearly _ ih =>
      obtain ⟨hnow, w₁, hround, hplays⟩ := clock_round hplays
      rw [pauses_round] at hk
      replace hk : rest.pauses = k := Nat.succ.inj hk
      cases k with
      | zero => omega
      | succ k =>
          -- this sleep was over before the next round, and so on to the last one
          have hrest := ih hplays hk
          have hlast : interval * (k + 1) = interval * k + interval := Nat.mul_succ _ _
          omega
  | _ => exact nomatch hk

/-- There is time for so many sleeps, and no more. -/
theorem pauses_le (h : Watched deadline interval n watching watched)
    (hplays : (clock A).Plays w watching w') (hinterval : 1 ≤ interval) {timeout : Nat}
    (hdeadline : deadline ≤ w + timeout) : watching.pauses ≤ timeout ⌈/⌉ interval := by
  cases hk : watching.pauses with
  | zero => exact Nat.zero_le _
  | succ k =>
      -- one sleep too many would have begun at the deadline
      have hslept := h.slept hplays hk
      refine Nat.succ_le_of_lt (Nat.lt_of_not_le fun hfew => ?_)
      have hle : timeout ≤ interval * k := (ceilDiv_le_iff_le_mul hinterval).mp hfew
      omega

/-- A watch expires at its deadline or later. -/
theorem late (h : Watched deadline interval n watching watched)
    (hplays : (clock A).Plays w watching w') (hexpired : watched = .expired) :
    deadline < 0xffffffffffffffff ∧ deadline ≤ w' := by
  induction h generalizing w with
  | expired _ hlate =>
      obtain ⟨_, -, hplays⟩ := clock_other hplays
      obtain ⟨_, -, hend, hpassed, hplays⟩ := clock_now hplays
      have hle := clock_le hplays
      exact ⟨by omega, by omega⟩
  | again _ _ _ ih =>
      obtain ⟨-, _, -, hplays⟩ := clock_round hplays
      exact ih hplays hexpired
  | _ => exact nomatch hexpired

end Watched

/-! ## The whole wait -/

variable {h h' : Held A} {patience timeout : Nat} {waited : Except Error Settled} {w w' : Nat}

/-- After its watch a wait neither looks at anything nor sleeps, and it fails for its deadline only
    if the watch expired. -/
theorem Concluded.unseen {rest : Transcript A} (hconcluded : Concluded h watched rest waited h')
    (hnote : watched = .expired → rest = [⟨.note .timedOut, ()⟩]) :
    rest.Unseen ∧ (waited = .error .timedOut → watched = .expired) ∧
      (waited = .ok .undecided → watched = .undecided) := by
  -- by what the watch saw; only the end of a run has more to ask
  cases watched with
  | undecided =>
      obtain ⟨rfl, rfl, -⟩ := hconcluded
      exact ⟨unseen_of_quiet nofun, nofun, fun _ => rfl⟩
  | failed e =>
      obtain ⟨rfl, rfl, -⟩ := hconcluded
      refine ⟨unseen_of_quiet nofun, fun herr => ?_, nofun⟩
      exact absurd (Except.error.inj herr ▸ trivial : (Error.ofTarget e).Pending)
        (Error.not_pending e)
  | shutdown =>
      obtain ⟨rfl, rfl, -⟩ := hconcluded
      exact ⟨unseen_of_quiet nofun, nofun, nofun⟩
  | expired =>
      obtain ⟨rfl, -⟩ := hconcluded
      obtain rfl := hnote rfl
      refine ⟨unseen_of_quiet fun event hm => ?_, fun _ => rfl, nofun⟩
      obtain rfl := List.mem_singleton.mp hm
      exact trivial
  | halted =>
      obtain ⟨finished, hfinish, rfl⟩ := hconcluded
      obtain ⟨hquiet, -⟩ := (finish_quiet h).path hfinish
      obtain ⟨-, hprompt, -⟩ := (finish_prompt h).path hfinish
      refine ⟨unseen_of_quiet hquiet, fun herr => ?_, fun hu => ?_⟩
      · cases finished with
        | ok _ => cases herr
        | error err => exact absurd (Except.error.inj herr ▸ trivial : err.Pending) (hprompt _ rfl)
      · cases finished <;> cases hu

/-- What a wait may take, when the host's clock goes from `w` to `w'` meanwhile. -/
structure Punctual (h : Held A) (patience timeout w w' : Nat) (log : Transcript A)
    (waited : Except Error Settled) (h' : Held A) : Prop where
  pauses : log.pauses ≤ timeout ⌈/⌉ h.runner.pollInterval
  polls : log.polled.length ≤ log.pauses + 1
  /-- With patience for one look more than there is time for, it comes to an end, and more of it
      changes nothing. -/
  ends : timeout ⌈/⌉ h.runner.pollInterval < patience → waited ≠ .ok .undecided ∧
    ∀ m, patience ≤ m → ((wait (A := A) m timeout).run.run h).Path log (waited, h')
  /-- But for the first one, a look at the clock follows a look at the core. -/
  looks : log.IsChain Event.LooksFirst
  halted : .ok .halted ∈ log.polled → waited ≠ .error .timedOut
  timedOut : waited = .error .timedOut →
    (∃ state, state ≠ .halted ∧ log.lastPoll? = some (.ok state)) ∧ w + timeout ≤ w'
  /-- Without time there is one look, and no sleep. -/
  atOnce : timeout = 0 → 0 < patience → log.polled.length = 1 ∧ log.pauses = 0

/-- Whatever the target answers and however the clock goes, a wait is punctual. -/
theorem wait_punctual (hactive : h.runner.state.isActive = true)
    (hinterval : 1 ≤ h.runner.pollInterval) {log : Transcript A}
    (run : ((wait (A := A) patience timeout).run.run h).Path log (waited, h'))
    (hplays : (clock A).Plays w log w') : Punctual h patience timeout w w' log waited h' := by
  obtain ⟨now, watching, rest, watched, rfl, hpath, hconcluded, hnote⟩ :=
    (wait_parts hactive).mp run
  obtain ⟨w₁, hbegan, hend, hpassed, hplays⟩ := clock_now hplays
  obtain ⟨w₂, hwatching, hrest⟩ := plays_append.mp hplays
  have hwatched := path_watch.mp hpath
  obtain ⟨hunseen, hexpired, hundecided⟩ := hconcluded.unseen hnote
  -- all that counts happens during the watch
  have hpolled : polled (⟨.host .now, now⟩ :: (watching ++ rest)) = watching.polled := by
    show polled (watching ++ rest) = _
    rw [polled_append, hunseen.polled, List.append_nil]
  have hpaused : pauses (⟨.host .now, now⟩ :: (watching ++ rest)) = watching.pauses := by
    show pauses ([⟨.host .now, now⟩] ++ (watching ++ rest)) = _
    rw [pauses_append, pauses_append, hunseen.pauses]
    exact Nat.zero_add _
  have hpauses : watching.pauses ≤ timeout ⌈/⌉ h.runner.pollInterval :=
    hwatched.pauses_le hwatching hinterval (by omega)
  exact {
    pauses := hpaused ▸ hpauses
    polls := by
      rw [hpolled, hpaused]
      exact hwatched.polls_le
    ends := by
      intro hpatience
      -- a watch that runs out of patience has slept more often than there was time for
      have hdecided : watched ≠ .undecided := by
        intro hu
        have hall := hwatched.pauses_of_undecided hu
        omega
      refine ⟨fun hu => hdecided (hundecided hu), fun m hm => (wait_parts hactive).mpr ?_⟩
      exact ⟨now, watching, rest, watched, rfl, path_watch.mpr (hwatched.more hdecided hm),
        hconcluded, hnote⟩
    looks := hwatched.looks_first hunseen.clock _
    halted := by
      intro hhalted herr
      rw [hpolled] at hhalted
      exact nomatch (hwatched.halted_of_polled hhalted).symm.trans (hexpired herr)
    timedOut := by
      intro herr
      have hlate := hexpired herr
      -- the clock does not come to its end, so the sum that sets the deadline was not cut off
      obtain ⟨hbound, hreached⟩ := hwatched.late hwatching hlate
      have hafter : w₂ ≤ w' := clock_le hrest
      refine ⟨?_, by omega⟩
      obtain ⟨state, hs, hlast⟩ := hwatched.last_of_expired hlate
      exact ⟨state, hs, (congrArg List.getLast? hpolled).trans hlast⟩
    atOnce := by
      rintro rfl hpatience
      rw [zero_ceilDiv] at hpauses
      rw [hpolled, hpaused]
      have hone := hwatched.polls_le
      have hpos := hwatched.polls_pos hpatience
      exact ⟨by omega, by omega⟩ }

/-- EVERY WAIT KEEPS ITS DEADLINE, whatever the target answers, and however the clock jumps ahead;
    and whatever they answer, there is one. -/
theorem wait_deadline (hactive : h.runner.state.isActive = true)
    (hinterval : 1 ≤ h.runner.pollInterval) (patience timeout : Nat) :
    (∀ responder : Responder A, ∃ log waited h',
      ((wait (A := A) patience timeout).run.run h).Path log (waited, h') ∧ responder.Gives log) ∧
    ∀ log waited h' w w', ((wait (A := A) patience timeout).run.run h).Path log (waited, h') →
      (clock A).Plays w log w' → Punctual h patience timeout w w' log waited h' := by
  refine ⟨fun responder => ?_, fun _ _ _ _ _ run => wait_punctual hactive hinterval run⟩
  obtain ⟨log, ⟨waited, h'⟩, hpath, hgives⟩ :=
    path_of_responder responder ((wait (A := A) patience timeout).run.run h) []
  exact ⟨log, waited, h', hpath, hgives⟩

/-- An algorithm that was started, looked at every three milliseconds. -/
def sampleStarted : Held (plainCore 32) where
  runner := { Bay.sampleRunner with state := .started, pollInterval := 3 }
  busy := true

/-- The clock jumps ahead while the host sleeps. -/
def sampleJump : Transcript (plainCore 32) :=
  [⟨.host .now, (10 : UInt64)⟩,
    ⟨.call .poll, .ok .running⟩, ⟨.host .now, (11 : UInt64)⟩, ⟨.host (.sleep 3), ()⟩,
    ⟨.host .keepAlive, ()⟩, ⟨.host .shutdownPending, false⟩,
    ⟨.call .poll, .ok .debugRunning⟩, ⟨.host .now, (20 : UInt64)⟩,
    ⟨.note .timedOut, ()⟩]

theorem sampleJump_plays : (clock (plainCore 32)).Plays 10 sampleJump 20 := by
  have hearly : (clock (plainCore 32)).Plays 10 (sampleJump.take 3) 11 :=
    .event _ ⟨Nat.le_refl 10, rfl, by decide⟩ (.event _ ⟨Nat.le_succ 10, trivial⟩
      (.event _ ⟨Nat.le_refl 11, rfl, by decide⟩ (.nil 11)))
  have hslept : (clock (plainCore 32)).Plays 11 [⟨.host (.sleep 3), ()⟩] 20 :=
    .event _ ⟨by decide, by decide⟩ (.nil 20)
  have hlate : (clock (plainCore 32)).Plays 20 (sampleJump.drop 4) 20 :=
    .event _ ⟨Nat.le_refl 20, trivial⟩ (.event _ ⟨Nat.le_refl 20, trivial⟩
      (.event _ ⟨Nat.le_refl 20, trivial⟩ (.event _ ⟨Nat.le_refl 20, rfl, by decide⟩
        (.event _ ⟨Nat.le_refl 20, trivial⟩ (.nil 20)))))
  exact plays_append.mpr ⟨11, hearly, plays_append.mpr ⟨20, hslept, hlate⟩⟩

/-- Four milliseconds leave time for two sleeps, but the clock jumps. -/
theorem wait_deadline_jump : ∃ h' : Held (plainCore 32),
    ((wait (A := plainCore 32) 3 4).run.run sampleStarted).Path sampleJump (.error .timedOut, h') ∧
    (clock (plainCore 32)).Plays 10 sampleJump 20 ∧ sampleJump.pauses = 1 ∧
    Punctual sampleStarted 3 4 10 20 sampleJump (.error .timedOut) h' := by
  obtain ⟨-, hevery⟩ := wait_deadline (h := sampleStarted) rfl (by decide) 3 4
  have hwatched : Watched 14 3 3 (sampleJump.tail.take 7) .expired :=
    .again nofun (by decide) (.expired nofun (by decide))
  have hpath : ((wait (A := plainCore 32) 3 4).run.run sampleStarted).Path sampleJump
      (.error .timedOut, { sampleStarted with runner.state := .timedOut }) :=
    (wait_parts rfl).mpr ⟨10, sampleJump.tail.take 7, [⟨.note .timedOut, ()⟩], .expired, rfl,
      path_watch.mpr hwatched, ⟨rfl, rfl⟩, fun _ => rfl⟩
  exact ⟨_, hpath, sampleJump_plays, rfl, hevery _ _ _ _ _ hpath sampleJump_plays⟩

end Runner

end DebugLink
