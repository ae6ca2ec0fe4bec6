import DebugLink.Proofs.Runner.Steady

/-!
# The guard and the runner

The guard says whether the target is busy, the runner how far it has come; they are two records
of one fact, written at different points.  `Held.Agrees` says that they tell the same.

* `wp_start` lets the core go at most ONCE, right after a poll that found it halted, and then
  both records say so; if anything fails, neither does.
* `wait_within`, `abandon_within` and `conclude_within`: whatever is answered, the two records
  agree again, and the core is not let go.
* `wp_run`, `wp_write` and `wp_read` put these together: if the guard is up in the end, the core
  was let go.

`Lawful busy log` is what holds at every moment of an operation that began when the guard was
`busy`.
-/

namespace DebugLink

open Environment Transcript Dialogue

variable {A : Arch}

/-! ## Transcripts of runs -/

/-- What a poll answered. -/
def Event.poll? : Event A → Option (Except TargetError ExecState)
  | ⟨.call .poll, answer⟩ => some answer
  | _ => none

namespace Transcript

/-- What the last poll answered. -/
def lastPoll? (log : Transcript A) : Option (Except TargetError ExecState) :=
  (log.filterMap Event.poll?).getLast?

/-- The core was not let go. -/
def Rests (log : Transcript A) : Prop :=
  ∀ event ∈ log, event.op.Restful

/-- The core was let go once, right after a poll that found it halted; `answer` is what came
    of it. -/
def Launched (log : Transcript A) (answer : Except TargetError Unit) : Prop :=
  ∃ (before after : Transcript A) (address : Option A.Addr) (flags : ResumeFlags),
    log = before ++ ⟨.call (.resume address flags), answer⟩ :: after ∧
    before.Rests ∧ after.Rests ∧ before.lastPoll? = some (.ok .halted)

/-- What holds of an operation that began when the guard was `busy`. -/
def Lawful (busy : Bool) (log : Transcript A) : Prop :=
  log.Rests ∨ busy = false ∧ ∃ answer, log.Launched answer

variable {log : Transcript A} {busy : Bool} {op : Op A}

/-- A core that rests does so until it is let go. -/
theorem Rests.append (h : log.Rests) (hop : op.Restful) (a : op.Answer) :
    Rests (log ++ [⟨op, a⟩]) := by
  intro event he
  rcases List.mem_append.mp he with he | he
  · exact h event he
  · rw [List.mem_singleton.mp he]
    exact hop

/-- It was let go once, and is not again. -/
theorem Launched.append {answer : Except TargetError Unit} (h : log.Launched answer)
    (hop : op.Restful) (a : op.Answer) : Launched (log ++ [⟨op, a⟩]) answer := by
  obtain ⟨before, after, address, flags, rfl, hb, ha, hpoll⟩ := h
  exact ⟨before, after ++ [⟨op, a⟩], address, flags, by simp, hb, ha.append hop a, hpoll⟩

/-- The core is let go. -/
theorem Rests.launch (h : log.Rests) (hpoll : log.lastPoll? = some (.ok .halted))
    (address : Option A.Addr) (flags : ResumeFlags) (answer : Except TargetError Unit) :
    Launched (log ++ [⟨.call (.resume address flags), answer⟩]) answer :=
  ⟨log, [], address, flags, rfl, h, nofun, hpoll⟩

/-- The last poll is the one that was just made, ... -/
theorem lastPoll?_poll (log : Transcript A) (answer : Except TargetError ExecState) :
    lastPoll? (log ++ [⟨.call .poll, answer⟩]) = some answer := by
  simp [lastPoll?, Event.poll?]

/-- ... and stays the last one while others do not poll. -/
theorem lastPoll?_append (hop : op.Steady) (a : op.Answer) :
    lastPoll? (log ++ [⟨op, a⟩]) = log.lastPoll? := by
  have h : Event.poll? (⟨op, a⟩ : Event A) = none := by
    cases op with
    | call c =>
        cases c with
        | poll => exact False.elim hop
        | _ => rfl
    | _ => rfl
  simp [lastPoll?, h]

/-- Whatever does not let the core go keeps it resting. -/
theorem kept_rests (busy : Bool) :
    Kept Op.Restful (Lawful busy) (Rests : Transcript A → Prop) where
  event := fun a hop h => h.append hop a
  holds := Or.inl

theorem kept_launched (answer : Except TargetError Unit) :
    Kept Op.Restful (Lawful false) fun log : Transcript A => log.Launched answer where
  event := fun a hop h => h.append hop a
  holds := fun h => Or.inr ⟨rfl, _, h⟩

/-- The core has not been let go, and was last seen halted. -/
theorem kept_polled (busy : Bool) : Kept Op.Steady (Lawful busy)
    fun log : Transcript A => log.Rests ∧ log.lastPoll? = some (.ok .halted) where
  event := fun a hop h => ⟨h.1.append hop.restful a, (lastPoll?_append hop a).trans h.2⟩
  holds := fun h => Or.inl h.1

/-- The core has not been let go: nobody tried, or the target refused. -/
def Unlaunched (log : Transcript A) : Prop :=
  log.Rests ∨ ∃ e, log.Launched (.error e)

theorem kept_unlaunched :
    Kept Op.Restful (Lawful false) (Unlaunched : Transcript A → Prop) where
  event := by
    rintro log op a hop (h | ⟨e, h⟩)
    · exact Or.inl (h.append hop a)
    · exact Or.inr ⟨e, h.append hop a⟩
  holds := by
    rintro log (h | ⟨e, h⟩)
    · exact Or.inl h
    · exact Or.inr ⟨rfl, _, h⟩

/-- There is one resume in the transcript at most. -/
theorem Launched.unique {before : Transcript A} {address : Option A.Addr} {flags : ResumeFlags}
    {answer answer' : Except TargetError Unit} {after : Transcript A}
    (h : Launched (before ++ ⟨.call (.resume address flags), answer⟩ :: after) answer') :
    answer' = answer ∧ before.Rests ∧ before.lastPoll? = some (.ok .halted) := by
  obtain ⟨before', after', address', flags', heq, hb, ha, hpoll⟩ := h
  -- a second one would be before or after the first
  have hno : ∀ {log : Transcript A}, log.Rests →
      ¬ (⟨.call (.resume address flags), answer⟩ ∈ log) :=
    fun hr hm => hr _ hm
  rcases List.append_eq_append_iff.mp heq with ⟨mid, rfl, hmid⟩ | ⟨mid, rfl, hmid⟩
  · cases mid with
    | nil =>
        rw [List.append_nil] at hb hpoll
        cases hmid
        exact ⟨rfl, hb, hpoll⟩
    | cons event mid =>
        obtain rfl := (List.cons.inj hmid).1
        exact absurd (List.mem_append_right _ List.mem_cons_self) (hno hb)
  · cases mid with
    | nil =>
        cases hmid
        rw [List.append_nil]
        exact ⟨rfl, hb, hpoll⟩
    | cons event mid =>
        rw [(List.cons.inj hmid).2] at ha
        exact absurd (List.mem_append_right _ List.mem_cons_self) (hno ha)

end Transcript

/-- In particular what is steady. -/
theorem Kept.steady {I P : Transcript A → Prop} (h : Kept Op.Restful I P) :
    Kept Op.Steady I P :=
  ⟨fun a hop => h.event a hop.restful, h.holds⟩

/-- The guard is up if and only if the runner's algorithm is on the target. -/
def Held.Agrees (h : Held A) : Prop :=
  h.busy = h.runner.state.isActive

/-- `h'` comes from `h` by something that keeps guard and runner in step, and starts nothing: a
    runner that is active now was active before, and still has what it had saved. -/
structure Held.Follows (h h' : Held A) : Prop where
  agrees : h.Agrees → h'.Agrees
  origin : h'.origin = h.origin
  saved : h'.runner.state.isActive = true →
    h.runner.state.isActive = true ∧ h'.runner.saved = h.runner.saved

theorem Held.Follows.refl (h : Held A) : h.Follows h :=
  ⟨id, rfl, fun hactive => ⟨hactive, rfl⟩⟩

/-- A runner that is not active, on a target that is free, has nothing to keep. -/
theorem Held.Follows.released {h h' : Held A} (hbusy : h'.busy = false)
    (hstate : h'.runner.state.isActive = false) (ho : h'.origin = h.origin) : h.Follows h' :=
  ⟨fun _ => hbusy.trans hstate.symm, ho,
    fun hactive => absurd hactive (by rw [hstate]; exact nofun)⟩

namespace Runner

variable {log : Transcript A} {h h' : Held A}

/-! ## Starting -/

/-- The target was polled, and if nothing failed it was halted. -/
theorem wp_requireHalted {I P : Transcript A → Prop} (hP : Kept Op.Restful I P) (hlog : P log) :
    (recorder A).wp I (requireHalted (A := A)).run
      (fun r log => P log ∧ (r = .ok () → log.lastPoll? = some (.ok .halted))) log := by
  refine wp_kept hP trivial hlog ?_
  rintro (e | state) hlog
  · exact ⟨hlog, nofun⟩
  · show (recorder A).wp I (ExceptT.run (if state ≠ .halted then _ else _)) _ _
    split
    · exact wp_kept hP trivial hlog fun _ hlog => ⟨hlog, nofun⟩
    · next hs =>
      obtain rfl : state = .halted := Decidable.of_not_not hs
      exact ⟨hlog, fun _ => lastPoll?_poll _ _⟩

/-- Everything is put in place, then the core is let go. -/
theorem wp_launch (hlog : log.Rests) (hpoll : log.lastPoll? = some (.ok .halted)) :
    (recorder A).wp (Lawful false) ((launch (A := A)).run.run h) (fun r log =>
      r.2.standing = h.standing ∧
        match r.1 with
        | .ok _ => log.Launched (.ok ())
        | .error _ => log.Unlaunched) log := by
  have hP := kept_polled (A := A) false
  refine wp_seq (wp_mono (wp_confined hP load_steady ⟨hlog, hpoll⟩ h) ?_)
  rintro ⟨e | _, h'⟩ log ⟨hp, hs⟩
  · exact ⟨hs, Or.inl hp.1⟩
  · refine wp_get (wp_kept hP trivial hp fun _ hp => ?_)
    refine wp_op (hP.holds hp) fun answer => ?_
    -- the last poll found the core halted, and nobody polled since
    have hl := hp.1.launch hp.2 (some h'.runner.image.entry) .all answer
    cases answer with
    | error e => exact ⟨hs, Or.inr ⟨e, hl⟩⟩
    | ok _ => exact ⟨hs, hl⟩

/-- A start that fails leaves both records as they were; one that does not sets both. -/
theorem wp_start (hbusy : h.busy = false) (hstate : h.runner.state.isActive = false)
    (hlog : log.Rests) :
    (recorder A).wp (Lawful false) ((start (A := A)).run.run h) (fun r log =>
      match r.1 with
      | .ok _ => log.Launched (.ok ()) ∧ r.2.busy = true ∧ r.2.runner.state = .started
      | .error _ => log.Unlaunched ∧ r.2.standing = h.standing) log := by
  have hU := kept_unlaunched (A := A)
  refine wp_get ?_
  rw [hbusy, hstate]
  refine wp_seq (wp_lift (wp_mono (wp_requireHalted (kept_rests false) hlog) ?_))
  rintro (e | _) log ⟨hlog, hpoll⟩
  · exact ⟨Or.inl hlog, rfl⟩
  · refine wp_seq (wp_outcome (wp_mono (wp_launch hlog (hpoll rfl)) ?_))
    rintro ⟨e | _, h'⟩ log ⟨hs, hl⟩
    · -- what was changed so far is undone
      refine wp_seq (wp_outcome (wp_mono (wp_confined hU.steady disarm_steady hl h') ?_))
      rintro ⟨_, h₁⟩ log ⟨hl, hs₁⟩
      refine wp_seq (wp_outcome (wp_mono (wp_confined hU.steady restoreContext_steady hl h₁) ?_))
      rintro ⟨_, h₂⟩ log ⟨hl, hs₂⟩
      exact ⟨hl, hs₂.trans (hs₁.trans hs)⟩
    · exact ⟨hl, rfl, rfl⟩

/-! ## Waiting and giving up -/

/-- Once the algorithm has halted, it is no longer on the target. -/
theorem finish_quiet (h : Held A) :
    ((finish (A := A)).run.run h).Within (Op.Inwardly Op.Quiet) fun r => h.Follows r.2 := by
  refine .seq (.outcome ((collect_quiet h).mono ?_))
  rintro ⟨collected, h₁⟩ hs₁
  refine .seq (.outcome ((restoreContext_quiet h₁).mono ?_))
  rintro ⟨restored, h₂⟩ hs₂
  have ho : h₂.origin = h.origin := Held.origin_of_standing (hs₂.trans hs₁)
  cases collected with
  | error e => exact .released rfl rfl ho
  | ok _ => cases restored <;> exact .released rfl rfl ho

/-- A wait leaves the algorithm where it is, and both records with it, or comes to an end. -/
theorem wait_sparing (h : Held A) (patience timeout : Nat) :
    ((wait (A := A) patience timeout).run.run h).Within Op.Sparing fun r => h.Follows r.2 := by
  show ((if (!h.runner.state.isActive) = true then _ else _ : RunM A Settled).run.run h).Within _ _
  split
  · exact .refl h
  · next hactive =>
    refine ⟨trivial, fun now => ?_⟩
    refine .seq (.liftDialogue ((watch_sparing _ _ _).mono ?_))
    rintro watched _
    cases watched with
    -- the runner is as active as before, and so the target as busy
    | expired =>
        have hstate : h.runner.state.isActive = true := by simpa using hactive
        refine ⟨trivial, fun _ => ⟨fun ha => ?_, rfl, fun _ => ⟨hstate, rfl⟩⟩⟩
        exact (ha.trans hstate : h.busy = true)
    | halted =>
        refine .seq (((finish_quiet h).kind.weaken fun _ => Op.Quiet.sparing).mono ?_)
        rintro ⟨e | _, h'⟩ hf
        · exact hf
        · exact hf
    | _ => exact .refl h

/-- Waiting does not let the core go. -/
theorem wait_within (h : Held A) (patience timeout : Nat) :
    ((wait (A := A) patience timeout).run.run h).Within Op.Restful fun r => h.Follows r.2 :=
  (wait_sparing h patience timeout).weaken fun _ => Op.Sparing.restful

/-- Giving up releases the target. -/
theorem abandon_within (h : Held A) :
    ((abandon (A := A)).run.run h).Within Op.Restful fun r => h.Follows r.2 := by
  have hrestful : ∀ op : Op A, op.Steady → op.Restful := fun _ => Op.Steady.restful
  show ((if (!h.runner.state.isActive) = true then _ else _ : RunM A Unit).run.run h).Within _ _
  split
  · exact .refl h
  · have hhalt : Confined Op.Restful Held.standing (call .halt : RunM A Unit) := .call trivial
    refine ⟨trivial, fun _ => .seq (.outcome ((hhalt h).mono ?_))⟩
    rintro ⟨halted, h₀⟩ hs₀
    refine .seq (.outcome ((disarm_steady.weaken hrestful h₀).mono ?_))
    rintro ⟨disarmed, h₁⟩ hs₁
    have hs₁ : h₁.standing = h.standing := hs₁.trans hs₀
    -- both records are cleared at once, whatever failed before
    have hlast : ∀ (h' : Held A) (r : Except Error Unit), h'.standing = h.standing →
        Within (A := A) Op.Restful (((do
          modify fun h => { runner := { h.runner with state := .aborted }, busy := false }
          MonadExcept.ofExcept r : RunM A Unit)).run.run h') (fun r => h.Follows r.2) := by
      intro h' r hs
      have ho : h'.origin = h.origin := Held.origin_of_standing hs
      cases r <;> exact .released rfl rfl ho
    refine ⟨trivial, ?_⟩
    rintro (e | state)
    · exact hlast _ _ hs₁
    · cases state with
      | halted =>
          refine .seq (.outcome ((restoreContext_steady.weaken hrestful h₁).mono ?_))
          rintro ⟨restored, h₂⟩ hs₂
          exact hlast _ _ (hs₂.trans hs₁)
      | _ => exact hlast _ _ hs₁

/-- How an operation ends that began when the target was not busy: the two records agree, and
    if they say that an algorithm is on the target, the core was let go. -/
def Ended (h : Held A) (log : Transcript A) : Prop :=
  log.Lawful false ∧ h.Agrees ∧ (h.busy = true → log.Launched (.ok ()))

/-- Nothing was started, and nothing has changed. -/
theorem ended_idle (hbusy : h.busy = false) (hstate : h.runner.state.isActive = false)
    (hs : h'.standing = h.standing) (hlog : log.Unlaunched) : Ended h' log := by
  have hstate' : h'.runner.state = h.runner.state := congrArg (·.runner.state) hs
  have hbusy' : h'.busy = h.busy := congrArg (·.busy) hs
  refine ⟨kept_unlaunched.holds hlog, ?_, ?_⟩
  · rw [Held.Agrees, hbusy', hstate', hbusy, hstate]
  · rw [hbusy', hbusy]
    exact nofun

/-- The core was let go, and both records say so until they are cleared. -/
theorem ended_launched (ha : h.Agrees) (hlog : log.Launched (.ok ())) : Ended h log :=
  ⟨Or.inr ⟨rfl, _, hlog⟩, ha, fun _ => hlog⟩

theorem started_agrees (hbusy : h.busy = true) (hstate : h.runner.state = .started) :
    h.Agrees := by
  rw [Held.Agrees, hbusy, hstate]
  rfl

/-- A run lets the core go once at most. -/
theorem wp_run (hbusy : h.busy = false) (hstate : h.runner.state.isActive = false)
    (hlog : log.Rests) (patience : Nat) :
    (recorder A).wp (Lawful false) ((run (A := A) patience).run.run h)
      (fun r log => Ended r.2 log) log := by
  refine wp_seq (wp_mono (wp_start hbusy hstate hlog) ?_)
  rintro ⟨e | _, h'⟩ log hl
  · exact ended_idle hbusy hstate hl.2 hl.1
  · refine wp_get (wp_mono (wp_within (kept_launched _)
      (wait_within h' _ _) hl.1) ?_)
    rintro r log ⟨hlog, hf⟩
    exact ended_launched (hf.agrees (started_agrees hl.2.1 hl.2.2)) hlog

end Runner

namespace Engine

variable {log : Transcript A} {h : Held A} {e : Engine}

/-! ## Transfers -/

/-- Emptying the ring does not let the core go; the rest is the start of the runner. -/
theorem wp_begin (hbusy : h.busy = false) (hstate : h.runner.state.isActive = false)
    (hlog : log.Rests) (flow : Flow) :
    (recorder A).wp (Lawful false) ((e.begin flow).run.run h) (fun r log =>
      match r.1 with
      | .ok _ => log.Launched (.ok ()) ∧ r.2.busy = true ∧ r.2.runner.state = .started
      | .error _ => log.Unlaunched ∧ r.2.standing = h.standing) log := by
  have hR := kept_rests (A := A) false
  refine wp_get ?_
  rw [hbusy]
  refine wp_seq (wp_lift (wp_mono (Runner.wp_requireHalted hR hlog) ?_))
  rintro (err | _) log ⟨hlog, _⟩
  · exact ⟨Or.inl hlog, rfl⟩
  · have hput : ∀ place value, (putPointer place value : Link A Unit).run.Only Op.Restful :=
      fun place value => (putPointer_steady place value).weaken fun _ => Op.Steady.restful
    refine wp_seq (wp_lift (wp_mono (wp_within hR (hput _ _) hlog) ?_))
    rintro (err | _) log ⟨hlog, _⟩
    · exact ⟨Or.inl hlog, rfl⟩
    · refine wp_seq (wp_lift (wp_mono (wp_within hR (hput _ _) hlog) ?_))
      rintro (err | _) log ⟨hlog, _⟩
      · -- a word that cannot be emptied: no runner is started
        exact ⟨Or.inl hlog, rfl⟩
      · refine wp_seq (wp_outcome (wp_mono (Runner.wp_start hbusy hstate hlog) ?_))
        rintro ⟨err | _, h'⟩ log hl
        · refine wp_kept kept_unlaunched trivial hl.1 fun _ hlog => ?_
          exact ⟨hlog, hl.2⟩
        · exact hl

/-- The end of a transfer, once the algorithm has been told. -/
def settle (e : Engine) (flow : Flow) (patience partner : Nat) (moved : Except Error Unit)
    (stats : Stats) : StateT (Held A) (Dialogue A) Outcome := do
  match ← (Runner.wait patience e.config.waitTimeout).run with
  | .ok .undecided => return .undecided
  | .error waitError =>
    note (.waitFailed flow)
    match moved with
    | .error err =>
      return .failed { offset := stats.bytes, error := err, waitError := some waitError }
    | .ok () => return .failed { offset := stats.bytes, error := waitError }
  | .ok .completed =>
    match moved with
    | .error err => return .failed { offset := stats.bytes, error := err }
    | .ok () =>
      match ← (do readWord .full (← address partner) : Link A Nat).run with
      | .error err => return .failed { offset := stats.bytes, error := err }
      | .ok 0 =>
        note (.abortedByTarget flow)
        return .failed { offset := stats.bytes, error := .operationFailed }
      | .ok _ => return .finished stats

/-- After data that was moved without a failure, there is nothing to tell. -/
theorem conclude_moved (flow : Flow) (patience own partner : Nat) (stats : Stats) :
    e.conclude (A := A) flow patience own partner (.ok ()) stats =
      e.settle flow patience partner (.ok ()) stats := rfl

/-- After a failure the algorithm is told, and whether that works is only reported. -/
theorem conclude_failed (flow : Flow) (patience own partner : Nat) (err : Error)
    (stats : Stats) :
    e.conclude (A := A) flow patience own partner (.error err) stats = (do
      match ← (putPointer (A := A) own 0).run with
      | .error _ =>
        note (.abortFailed flow)
        e.settle flow patience partner (.error err) stats
      | .ok _ => e.settle flow patience partner (.error err) stats) := by
  refine bind_congr fun r => ?_
  cases r <;> rfl

/-- At its end a transfer waits for the algorithm, and does nothing else to guard and runner. -/
theorem settle_held {K : Op A → Prop} (hK : ∀ op : Op A, op.Offline → K op) {P : Held A → Prop}
    {patience partner : Nat}
    (hwait : ((Runner.wait patience e.config.waitTimeout).run.run h).Within K fun r => P r.2)
    (hread : (do readWord .full (← address partner) : Link A Nat).run.Only K)
    (flow : Flow) (moved : Except Error Unit) (stats : Stats) :
    ((e.settle flow patience partner moved stats).run h).Within K fun r => P r.2 := by
  refine Within.bind (hwait.mono ?_)
  rintro ⟨waitError | settled, h'⟩ hf
  · refine ⟨hK _ trivial, fun _ => ?_⟩
    cases moved <;> exact hf
  · cases settled with
    | undecided => exact hf
    | completed =>
        cases moved with
        | error err => exact hf
        | ok _ =>
            refine Within.bind (Within.bind (hread.mono ?_))
            rintro (err | ptr) _
            · exact hf
            · cases ptr with
              | zero => exact ⟨hK _ trivial, fun _ => hf⟩
              | succ ptr => exact hf

/-- So does all of the end: whatever holds after the wait holds then. -/
theorem conclude_held {K : Op A → Prop} (hK : ∀ op : Op A, op.Offline → K op) {P : Held A → Prop}
    {patience own partner : Nat}
    (hwait : ((Runner.wait patience e.config.waitTimeout).run.run h).Within K fun r => P r.2)
    (hput : (putPointer own 0 : Link A Unit).run.Only K)
    (hread : (do readWord .full (← address partner) : Link A Nat).run.Only K)
    (flow : Flow) (moved : Except Error Unit) (stats : Stats) :
    ((e.conclude flow patience own partner moved stats).run h).Within K fun r => P r.2 := by
  have hsettle := settle_held hK hwait hread flow
  cases moved with
  | ok _ =>
      rw [conclude_moved]
      exact hsettle _ _
  | error err =>
      rw [conclude_failed]
      refine Within.bind (Within.bind (hput.mono ?_))
      rintro (_ | _) _
      · exact ⟨hK _ trivial, fun _ => hsettle _ _⟩
      · exact hsettle _ _

/-- However a transfer ends, the guard and the runner agree. -/
theorem conclude_within (h : Held A) (flow : Flow) (patience own partner : Nat)
    (moved : Except Error Unit) (stats : Stats) :
    ((e.conclude flow patience own partner moved stats).run h).Within Op.Restful
      fun r => h.Follows r.2 := by
  have hput : (putPointer own 0 : Link A Unit).run.Only Op.Restful :=
    (putPointer_steady own 0).weaken fun _ => Op.Steady.restful
  have hread : (do readWord .full (← address partner) : Link A Nat).run.Only Op.Restful :=
    (Only.andThen (address_steady partner) fun _ => readWord_steady _ _).weaken
      fun _ => Op.Steady.restful
  exact conclude_held (fun _ h => h.data.steady.restful) (Runner.wait_within h _ _) hput hread flow
    moved stats

/-- The end of a transfer that was begun. -/
theorem wp_conclude (ha : h.Agrees) (hlog : log.Launched (.ok ())) (flow : Flow)
    (patience own partner : Nat) (moved : Except Error Unit) (stats : Stats) :
    (recorder A).wp (Lawful false) ((e.conclude flow patience own partner moved stats).run h)
      (fun r log => Runner.Ended r.2 log) log := by
  refine wp_mono (wp_within (kept_launched _) (conclude_within h _ _ _ _ _ _) hlog) ?_
  rintro r log ⟨hlog, hf⟩
  exact Runner.ended_launched (hf.agrees ha) hlog

/-- A write lets the core go once at most, ... -/
theorem wp_write (hbusy : h.busy = false) (hstate : h.runner.state.isActive = false)
    (hlog : log.Rests) (patience : Nat) (data : List UInt8) :
    (recorder A).wp (Lawful false) ((e.write patience data).run h)
      (fun r log => Runner.Ended r.2 log) log := by
  refine wp_then (wp_mono (wp_begin hbusy hstate hlog .write) ?_)
  rintro ⟨err | _, h'⟩ log hl
  · exact Runner.ended_idle hbusy hstate hl.2 hl.1
  · refine wp_then (wp_liftOnly (wp_mono
      (wp_within (kept_launched _).steady (feedAll_steady data {}) hl.1) ?_))
    rintro ⟨moved, progress⟩ log ⟨hlog, _⟩
    exact wp_conclude (Runner.started_agrees hl.2.1 hl.2.2) hlog _ _ _ _ _ _

/-- ... and so does a read. -/
theorem wp_read (hbusy : h.busy = false) (hstate : h.runner.state.isActive = false)
    (hlog : log.Rests) (patience : Nat) (buffer : List UInt8) :
    (recorder A).wp (Lawful false) ((e.read patience buffer).run h)
      (fun r log => Runner.Ended r.2 log) log := by
  rw [Engine.read]
  split
  · -- a length that the ring does not serve: nothing is asked
    exact Runner.ended_idle hbusy hstate rfl (Or.inl hlog)
  · refine wp_then (wp_mono (wp_begin hbusy hstate hlog .read) ?_)
    rintro ⟨err | _, h'⟩ log hl
    · exact Runner.ended_idle hbusy hstate hl.2 hl.1
    · refine wp_then (wp_liftOnly (wp_mono
        (wp_within (kept_launched _).steady (drainAll_steady _ {}) hl.1) ?_))
      rintro ⟨moved, progress⟩ log ⟨hlog, _⟩
      refine wp_then (wp_mono (wp_conclude (Runner.started_agrees hl.2.1 hl.2.2) hlog
        .read patience _ _ _ _) ?_)
      exact fun _ _ hended => hended

end Engine

end DebugLink
