import DebugLink.Proofs.Runner.Deadline

/-!
# Waits that gave up leave no trace

An algorithm that does not halt may be waited for again and again.  Each of these waits may give up
at another place, and between them somebody may try to start an algorithm on the same target, and
is refused.  `Lingers` is any such history; all it changes is HOW FAR THE RUNNER IS SAID TO HAVE
COME (`Held.marked`).

* `Lingers.marked` is the invariant, by induction on the history: nothing but looks at the core, and
  a mark that still says that the algorithm is on the target.
* `Blind`: a computation to which the mark does not matter, and which leaves it alone.  All that
  collects results and cleans up is `Blind`, so that `finish` and `abandon`, which set the mark in
  the end, are the same dialogues with and without the history (`finish_marked`, `abandon_marked`).
-/

namespace DebugLink

open Environment Dialogue Transcript

variable {A : Arch} {α β : Type}

/-- The same, but for how far the runner is said to have come. -/
def Held.marked (h : Held A) (state : RunState) : Held A :=
  { h with runner.state := state }

namespace Runner

/-! ## Computations that do not look at the mark -/

/-- The mark does not matter to it, and is left alone. -/
def Blind (x : RunM A α) : Prop :=
  ∀ (h : Held A) (state : RunState),
    x.run.run (h.marked state) = x.run.run h >>= fun r => .done (r.1, r.2.marked state)

namespace Blind

theorem pure (a : α) : Blind (Pure.pure a : RunM A α) :=
  fun _ _ => rfl

theorem throw (e : Error) : Blind (MonadExcept.throw e : RunM A α) :=
  fun _ _ => rfl

theorem ofExcept (r : Except Error α) : Blind (MonadExcept.ofExcept r : RunM A α) := by
  cases r with
  | ok a => exact pure a
  | error e => exact throw e

/-- Neither step looks at the mark. -/
theorem bind {x : RunM A α} {f : α → RunM A β} (hx : Blind x) (hf : ∀ a, Blind (f a)) :
    Blind (x >>= f) := by
  intro h state
  simp only [ExceptT.run_bind, StateT.run_bind]
  rw [hx h state, Dialogue.bind_assoc, Dialogue.bind_assoc]
  refine congrArg (x.run.run h >>= ·) (funext ?_)
  rintro ⟨e | a, h'⟩
  -- a failure leaves the mark where it is, too
  · rfl
  · exact hf a h' state

/-- What is done may depend on all the rest. -/
theorem get {f : Held A → RunM A α} (hf : ∀ h state, f (h.marked state) = f h)
    (hx : ∀ h, Blind (f h)) : Blind (get >>= f) := by
  intro h state
  show (f (h.marked state)).run.run (h.marked state) = _
  rw [hf]
  exact hx h h state

/-- What keeps the mark and does not depend on it is blind. -/
theorem update {f : Runner A → Runner A}
    (hf : ∀ r state, f { r with state } = { f r with state }) : Blind (update f) := by
  intro h state
  show Dialogue.done (Except.ok (), { h with runner := f { h.runner with state } }) =
    .done (.ok (), { h with runner := { f h.runner with state } })
  rw [hf]

/-- What is asked cannot look at it. -/
theorem liftDialogue (d : Dialogue A α) : Blind (liftM d : RunM A α) := by
  intro h state
  show (d >>= fun a => Dialogue.done (a, h.marked state)) >>=
      (fun r => Dialogue.done (Except.ok r.1, r.2)) =
    ((d >>= fun a => Dialogue.done (a, h)) >>= fun r => .done (.ok r.1, r.2)) >>=
      fun r => Dialogue.done (r.1, r.2.marked state)
  simp only [Dialogue.bind_assoc, Dialogue.done_bind]

theorem note (n : Note) : Blind (note n : RunM A Unit) :=
  fun _ _ => rfl

theorem feature (f : Feature) : Blind (feature f : RunM A f.Answer) :=
  fun _ _ => rfl

theorem call (c : Call A) : Blind (call c : RunM A c.Answer) := by
  intro h state
  refine congrArg (Dialogue.ask (.call c)) (funext ?_)
  rintro (e | a) <;> rfl

end Blind

/-- The breakpoint goes whatever the mark says. -/
theorem disarm_blind : Blind (disarm (A := A)) := by
  refine .get (fun _ _ => rfl) fun h => ?_
  dsimp only
  split
  · exact .pure _
  · refine .bind (.update fun _ _ => rfl) fun _ => .bind (.feature _) fun _ => ?_
    split
    · refine .bind (.call _) fun _ => ?_
      split
      · exact .note _
      · exact .pure _
    · exact .pure _

/-- So do the registers. -/
theorem restoreContext_blind : Blind (restoreContext (A := A)) := by
  refine .get (fun _ _ => rfl) fun h => .bind (.update fun _ _ => rfl) fun _ => ?_
  exact .bind (.liftDialogue _) fun _ => .ofExcept _

/-- Results are read back in the same way. -/
theorem gather_blind : Blind (gather (A := A)) := by
  refine .get (fun _ _ => rfl) fun h => .bind (.call _) fun pc => ?_
  split
  · exact .bind (.note _) fun _ => .throw _
  · refine .bind (.liftDialogue _) fun read => .bind (.update fun _ _ => rfl) fun _ => ?_
    refine .bind (.ofExcept _) fun _ => .bind (.liftDialogue _) fun read => ?_
    exact .bind (.update fun _ _ => rfl) fun _ => .ofExcept _

/-- And so the whole of it. -/
theorem collect_blind : Blind (collect (A := A)) := by
  rw [collect_eq]
  exact .bind disarm_blind fun _ => gather_blind

/-! ## Where the mark is set anew -/

/-- A computation that is run to its end, be it a failure, and what comes after it. -/
theorem outcome_then (x : RunM A α) (f : Except Error α → RunM A β) (h : Held A) :
    (outcome x >>= f).run.run h = x.run.run h >>= fun r => (f r.1).run.run r.2 := by
  simp only [ExceptT.run_bind, StateT.run_bind]
  show (x.run.run h >>= fun r => Dialogue.done (Except.ok r.1, r.2)) >>= _ = _
  rw [Dialogue.bind_assoc]
  rfl

/-- What does not depend on the mark in the end may come after what is blind to it. -/
theorem Blind.outcome_then {x : RunM A α} (hx : Blind x) {f : Except Error α → RunM A β}
    {h : Held A} {state : RunState}
    (hf : ∀ r h', (f r).run.run (h'.marked state) = (f r).run.run h') :
    (outcome x >>= f).run.run (h.marked state) = (outcome x >>= f).run.run h := by
  rw [Runner.outcome_then, Runner.outcome_then, hx h state, Dialogue.bind_assoc]
  exact congrArg (x.run.run h >>= ·) (funext fun r => hf r.1 r.2)

/-- How far the runner was said to have come does not matter to what comes after a halt. -/
theorem finish_marked (h : Held A) (state : RunState) :
    (finish (A := A)).run.run (h.marked state) = finish.run.run h := by
  refine collect_blind.outcome_then fun collected h₁ => ?_
  refine restoreContext_blind.outcome_then fun restored h₂ => ?_
  cases collected *> restored <;> rfl

/-- Nor does it matter to giving up, as long as there is something to give up. -/
theorem abandon_marked {h : Held A} {state : RunState} (hactive : h.runner.state.isActive = true)
    (hstate : state.isActive = true) :
    (abandon (A := A)).run.run (h.marked state) = abandon.run.run h := by
  show ((if (!state.isActive) = true then _ else _ : RunM A Unit).run.run (h.marked state)) =
    ((if (!h.runner.state.isActive) = true then _ else _ : RunM A Unit).run.run h)
  rw [hactive, hstate]
  refine congrArg (Dialogue.ask (.note (.abandoning _))) (funext fun _ => ?_)
  refine (Blind.call .halt).outcome_then fun halted h₁ => ?_
  refine disarm_blind.outcome_then fun disarmed h₂ => ?_
  -- whatever is left sets the mark
  have hlast : ∀ (h : Held A) (r : Except Error Unit),
      (do
        modify fun h => { runner := { h.runner with state := .aborted }, busy := false }
        MonadExcept.ofExcept r : RunM A Unit).run.run (h.marked state) =
      (do
        modify fun h => { runner := { h.runner with state := .aborted }, busy := false }
        MonadExcept.ofExcept r : RunM A Unit).run.run h := by
    intro h r
    cases r <;> rfl
  refine congrArg (Dialogue.ask (.call .poll)) (funext ?_)
  rintro (e | core)
  · exact hlast { h₂ with runner.saved := [] } _
  · cases core with
    | halted => exact restoreContext_blind.outcome_then fun restored h₃ => hlast h₃ _
    | _ => exact hlast { h₂ with runner.saved := [] } _

/-! ## Histories of waits that gave up -/

/-- What may go on while an algorithm does not halt: waits that give up, and attempts to start an
    algorithm, with this runner or with another one of the same target, that fail. -/
inductive Lingers : Held A → Transcript A → Held A → Prop
  | begin (h : Held A) : Lingers h [] h
  | waited {h h₁ h₂ : Held A} {log rest : Transcript A} {patience timeout : Nat}
      {waited : Except Error Settled} :
      ((wait (A := A) patience timeout).run.run h).Path log (waited, h₁) → GaveUp log waited →
      Lingers h₁ rest h₂ → Lingers h (log ++ rest) h₂
  | refused {h h₁ h₂ : Held A} {log rest : Transcript A} {task : Task} {error : Error} :
      task.Starts → (task.perform.run h).Path log (some error, h₁) →
      Lingers h₁ rest h₂ → Lingers h (log ++ rest) h₂
  | otherRefused {h h₁ h₂ : Held A} {other : Runner A} {log rest : Transcript A} {task : Task}
      {error : Error} : task.Starts →
      (task.perform.run { h with runner := other }).Path log (some error, h₁) →
      Lingers { h with busy := h₁.busy } rest h₂ → Lingers h (log ++ rest) h₂

variable {h h' : Held A} {log : Transcript A} {patience timeout : Nat}

/-- A wait that gives up looks at the core, and changes the mark at most. -/
theorem gaveUp_marked (hactive : h.runner.state.isActive = true) (hbusy : h.busy = true)
    {waited : Except Error Settled}
    (run : ((wait (A := A) patience timeout).run.run h).Path log (waited, h'))
    (hgave : GaveUp log waited) :
    (∀ event ∈ log, event.op.Glance) ∧ (h' = h ∨ h' = h.marked .timedOut) := by
  have hup : h'.busy = true := (wait_busy hactive hbusy run).mpr (Or.inl hgave)
  obtain ⟨now, watching, rest, watched, rfl, hpath, hconcluded, hnote⟩ :=
    (wait_parts hactive).mp run
  obtain ⟨hwatching, -⟩ := (watch_glance _ _ _).path hpath
  have hglance : (∀ event ∈ rest, event.op.Glance) →
      ∀ event ∈ (⟨.host .now, now⟩ :: (watching ++ rest) : Transcript A), event.op.Glance := by
    intro hrest event hm
    rcases List.mem_cons.mp hm with rfl | hm
    · exact trivial
    · exact (List.mem_append.mp hm).elim (hwatching event) (hrest event)
  cases watched with
  | undecided =>
      obtain ⟨err, hwaited, -⟩ := hgave
      obtain ⟨-, hopen, -⟩ := hconcluded
      exact nomatch hopen.symm.trans hwaited
  | failed e =>
      obtain ⟨rfl, -, rfl⟩ := hconcluded
      exact ⟨hglance nofun, Or.inl rfl⟩
  | shutdown =>
      obtain ⟨rfl, -, rfl⟩ := hconcluded
      exact ⟨hglance nofun, Or.inl rfl⟩
  | expired =>
      obtain ⟨-, rfl⟩ := hconcluded
      obtain rfl := hnote rfl
      refine ⟨hglance fun event hm => ?_, Or.inr rfl⟩
      obtain rfl := List.mem_singleton.mp hm
      exact trivial
  | halted =>
      -- the run was finished, and the target released
      obtain ⟨finished, hfinish, -⟩ := hconcluded
      obtain ⟨-, -, hfree⟩ := (finish_prompt h).path hfinish
      exact nomatch hup.symm.trans hfree

/-- An attempt to start an algorithm on a busy target is reported, and nothing else. -/
theorem refused_nothing {task : Task} {error : Option Error} (hbusy : h.busy = true)
    (hs : task.Starts) (run : (task.perform.run h).Path log (error, h')) :
    (∀ event ∈ log, event.op.Glance) ∧ h' = h := by
  rw [Task.perform_busy hbusy hs] at run
  obtain ⟨_, rest, rfl, hdone⟩ := path_ask.mp run
  obtain ⟨rfl, heq⟩ := path_done.mp hdone
  cases heq
  refine ⟨fun event hm => ?_, rfl⟩
  obtain rfl := List.mem_singleton.mp hm
  exact trivial

/-- NOTHING BUT LOOKS AT THE CORE, and nothing but the mark has changed. -/
theorem Lingers.marked (hl : Lingers h log h') (hactive : h.runner.state.isActive = true)
    (hbusy : h.busy = true) :
    (∀ event ∈ log, event.op.Glance) ∧
      ∃ state : RunState, state.isActive = true ∧ h' = h.marked state := by
  -- on the history: after each attempt, only the mark may differ
  induction hl with
  | begin h => exact ⟨nofun, h.runner.state, hactive, rfl⟩
  | waited run hgave _ ih =>
      obtain ⟨hlog, hmark⟩ := gaveUp_marked hactive hbusy run hgave
      rcases hmark with rfl | rfl
      · obtain ⟨hrest, state, hstate, rfl⟩ := ih hactive hbusy
        exact ⟨List.forall_mem_append.mpr ⟨hlog, hrest⟩, state, hstate, rfl⟩
      · -- the mark says that time was up; the algorithm is on the target all the same
        obtain ⟨hrest, state, hstate, rfl⟩ := ih rfl hbusy
        exact ⟨List.forall_mem_append.mpr ⟨hlog, hrest⟩, state, hstate, rfl⟩
  | refused hs run _ ih =>
      obtain ⟨hlog, rfl⟩ := refused_nothing hbusy hs run
      obtain ⟨hrest, state, hstate, rfl⟩ := ih hactive hbusy
      exact ⟨List.forall_mem_append.mpr ⟨hlog, hrest⟩, state, hstate, rfl⟩
  | @otherRefused h _ _ other _ _ _ _ hs run _ ih =>
      obtain ⟨hlog, rfl⟩ := refused_nothing (h := { h with runner := other }) hbusy hs run
      obtain ⟨hrest, state, hstate, rfl⟩ := ih hactive hbusy
      exact ⟨List.forall_mem_append.mpr ⟨hlog, hrest⟩, state, hstate, rfl⟩

/-! ## What comes after -/

/-- A wait that finds the core halted: what it looks at, and what is left to do then.  The mark
    decides neither. -/
theorem path_wait_halted (hactive : h.runner.state.isActive = true)
    {waited : Except Error Settled} :
    ((wait (A := A) patience timeout).run.run h).Path log (waited, h') ∧
        .ok .halted ∈ log.polled ↔
      ∃ (now : UInt64) (watching rest : Transcript A) (finished : Except Error Unit),
        log = ⟨.host .now, now⟩ :: (watching ++ rest) ∧
        (watch (min (now.toNat + timeout) 0xffffffffffffffff) h.runner.pollInterval patience :
          Dialogue A Watch).Path watching .halted ∧
        ((finish (A := A)).run.run h).Path rest (finished, h') ∧
        waited = finished.map fun _ => .completed := by
  rw [wait_parts hactive]
  constructor
  · rintro ⟨⟨now, watching, rest, watched, rfl, hpath, hconcluded, hnote⟩, hhalted⟩
    obtain ⟨hunseen, -⟩ := hconcluded.unseen hnote
    -- nobody looks at the core once the watch is over
    have hseen : .ok .halted ∈ watching.polled := by
      replace hhalted : .ok .halted ∈ polled (watching ++ rest) := hhalted
      rwa [polled_append, hunseen.polled, List.append_nil] at hhalted
    obtain rfl := (path_watch.mp hpath).halted_of_polled hseen
    obtain ⟨finished, hfinish, hwaited⟩ := hconcluded
    exact ⟨now, watching, rest, finished, rfl, hpath, hfinish, hwaited⟩
  · rintro ⟨now, watching, rest, finished, rfl, hpath, hfinish, hwaited⟩
    refine ⟨⟨now, watching, rest, .halted, rfl, hpath, ⟨finished, hfinish, hwaited⟩, nofun⟩, ?_⟩
    obtain ⟨before, rfl⟩ := watch_last hpath rfl
    exact List.mem_filterMap.mpr ⟨⟨.call .poll, .ok .halted⟩, by simp, rfl⟩

/-- The core was only looked at until it was found halted, and `rest` is what happened since. -/
def HaltSeen (log rest : Transcript A) : Prop :=
  rest.polled = [] ∧ ∃ before, log = before ++ ⟨.call .poll, .ok .halted⟩ :: rest ∧
    ∀ event ∈ before, event.op.Glance

/-- What a wait does after a halt, and how it ends. -/
theorem haltSeen_of_wait (hactive : h.runner.state.isActive = true)
    {waited : Except Error Settled} (hhalted : .ok .halted ∈ log.polled)
    (run : ((wait (A := A) patience timeout).run.run h).Path log (waited, h')) :
    ∃ rest finished, HaltSeen log rest ∧ ((finish (A := A)).run.run h).Path rest (finished, h') ∧
      waited = finished.map fun _ => .completed := by
  obtain ⟨now, watching, rest, finished, rfl, hpath, hfinish, hwaited⟩ :=
    (path_wait_halted hactive).mp ⟨run, hhalted⟩
  refine ⟨rest, finished, ?_, hfinish, hwaited⟩
  obtain ⟨hquiet, -⟩ := (finish_quiet h).path hfinish
  obtain ⟨hglance, -⟩ := (watch_glance _ _ _).path hpath
  obtain ⟨before, rfl⟩ := watch_last hpath rfl
  refine ⟨(unseen_of_quiet hquiet).polled, ⟨.host .now, now⟩ :: before, by simp, ?_⟩
  intro event hm
  rcases List.mem_cons.mp hm with rfl | hm
  · exact trivial
  · exact hglance event (List.mem_append_left _ hm)

/-- The same waits find the core halted, and they end alike. -/
theorem wait_marked (hactive : h.runner.state.isActive = true) {state : RunState}
    (hstate : state.isActive = true) {waited : Except Error Settled}
    (hhalted : .ok .halted ∈ log.polled) :
    ((wait (A := A) patience timeout).run.run (h.marked state)).Path log (waited, h') ↔
      ((wait (A := A) patience timeout).run.run h).Path log (waited, h') := by
  -- both waits ask the same questions, and finish alike
  constructor
  · intro run
    obtain ⟨now, watching, rest, finished, hlog, hpath, hfinish, hwaited⟩ :=
      (path_wait_halted (h := h.marked state) hstate).mp ⟨run, hhalted⟩
    rw [finish_marked] at hfinish
    have hwait := (path_wait_halted hactive).mpr
      ⟨now, watching, rest, finished, hlog, hpath, hfinish, hwaited⟩
    exact hwait.1
  · intro run
    obtain ⟨now, watching, rest, finished, hlog, hpath, hfinish, hwaited⟩ :=
      (path_wait_halted hactive).mp ⟨run, hhalted⟩
    rw [← finish_marked h state] at hfinish
    have hwait := (path_wait_halted (h := h.marked state) hstate).mpr
      ⟨now, watching, rest, finished, hlog, hpath, hfinish, hwaited⟩
    exact hwait.1

/-- After `h'` everything goes on as after `h`. -/
structure AsAfter (h h' : Held A) : Prop where
  /-- Giving up is the same dialogue, and comes to the same. -/
  abandon : (Runner.abandon (A := A)).run.run h' = Runner.abandon.run.run h
  /-- So is a wait, as long as it finds the core halted. -/
  wait : ∀ patience timeout log waited h₁, .ok .halted ∈ log.polled →
    (((Runner.wait (A := A) patience timeout).run.run h').Path log (waited, h₁) ↔
      ((Runner.wait (A := A) patience timeout).run.run h).Path log (waited, h₁))
  /-- Whenever and however either of them finds the core halted: from then on, a target that gives
      the same answers is asked the same, and the same comes of it. -/
  halted : ∀ patience timeout patience₀ timeout₀ log log₀ waited waited₀ h₁ h₀,
    .ok .halted ∈ log.polled → .ok .halted ∈ log₀.polled →
    ((Runner.wait (A := A) patience timeout).run.run h').Path log (waited, h₁) →
    ((Runner.wait (A := A) patience₀ timeout₀).run.run h).Path log₀ (waited₀, h₀) →
    ∃ rest rest₀, HaltSeen log rest ∧ HaltSeen log₀ rest₀ ∧
      ∀ responder : Responder A, responder.Gives rest → responder.Gives rest₀ →
        rest = rest₀ ∧ waited = waited₀ ∧ h₁ = h₀

/-- The mark makes no difference. -/
theorem asAfter_marked (hactive : h.runner.state.isActive = true) {state : RunState}
    (hstate : state.isActive = true) : AsAfter h (h.marked state) where
  abandon := abandon_marked hactive hstate
  wait _ _ _ _ _ hhalted := wait_marked hactive hstate hhalted
  halted := by
    intro _ _ _ _ log log₀ waited waited₀ h₁ h₀ hhalted hhalted₀ run run₀
    obtain ⟨rest, finished, hseen, hfinish, rfl⟩ :=
      haltSeen_of_wait (h := h.marked state) hstate hhalted run
    obtain ⟨rest₀, finished₀, hseen₀, hfinish₀, rfl⟩ := haltSeen_of_wait hactive hhalted₀ run₀
    rw [finish_marked] at hfinish
    refine ⟨rest, rest₀, hseen, hseen₀, fun responder hgives hgives₀ => ?_⟩
    obtain ⟨rfl, heq⟩ := hfinish.given hfinish₀ hgives hgives₀
    cases heq
    exact ⟨rfl, rfl, rfl⟩

end Runner

namespace Bay

variable {bay : Bay A} {h' : Held A} {log : Transcript A}

/-- HOWEVER OFTEN SOMEBODY WAITED IN VAIN, and tried to start something else: only the core was
    looked at, all but the mark of the runner is as the start left it, and whatever comes to an end
    then does so as if nothing had happened in between. -/
theorem Reachable.lingering (hr : bay.Reachable) (i : Fin bay.runners.length)
    (hactive : (bay.held i).runner.state.isActive = true)
    (hl : Runner.Lingers (bay.held i) log h') :
    (∀ event ∈ log, event.op.Glance) ∧
    (∃ state : RunState, state.isActive = true ∧ h' = (bay.held i).marked state) ∧
    Runner.AsAfter (bay.held i) h' := by
  have hbusy : (bay.held i).busy = true := busy_of_active hr.counted i hactive
  obtain ⟨hlog, state, hstate, rfl⟩ := hl.marked hactive hbusy
  exact ⟨hlog, ⟨state, hstate, rfl⟩, Runner.asAfter_marked hactive hstate⟩

/-- Somebody tried to start the other runner, and then somebody waited in vain. -/
theorem Reachable.lingering_sample : ∃ log h', Runner.Lingers (sample.held (1 : Fin 2)) log h' ∧
    log.polled = [.ok .running] ∧ h'.runner.state = .timedOut ∧
    Runner.AsAfter (sample.held (1 : Fin 2)) h' := by
  have hrefused : (Task.start.perform.run { runner := sampleRunner, busy := true }).Path
      [⟨.note .alreadyRunning, ()⟩]
      (some .alreadyRunning, { runner := sampleRunner, busy := true }) :=
    path_ask.mpr ⟨(), [], rfl, .done _⟩
  have hwatched : Runner.Watched (A := plainCore 32) 5 1 1
      [⟨.call .poll, .ok .running⟩, ⟨.host .now, (5 : UInt64)⟩] .expired :=
    .expired nofun (by decide)
  have hwaited : ((Runner.wait (A := plainCore 32) 1 0).run.run (sample.held (1 : Fin 2))).Path
      (⟨.host .now, (5 : UInt64)⟩ :: ([⟨.call .poll, .ok .running⟩, ⟨.host .now, (5 : UInt64)⟩] ++
        [⟨.note .timedOut, ()⟩])) (.error .timedOut, (sample.held (1 : Fin 2)).marked .timedOut) :=
    (Runner.wait_parts rfl).mpr ⟨5, _, _, .expired, rfl, Runner.path_watch.mpr hwatched,
      ⟨rfl, rfl⟩, fun _ => rfl⟩
  have hlingers := Runner.Lingers.otherRefused (h := sample.held (1 : Fin 2))
    (show Task.start.Starts from trivial) hrefused
    (.waited hwaited ⟨.timedOut, rfl, Or.inl trivial⟩ (.begin _))
  have hsince := Reachable.lingering sample_reachable (1 : Fin 2) rfl hlingers
  exact ⟨_, _, hlingers, rfl, rfl, hsince.2.2⟩

end Bay

end DebugLink
