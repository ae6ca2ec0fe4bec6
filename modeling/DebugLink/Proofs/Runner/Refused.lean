import DebugLink.Proofs.Runner.Abandon
import DebugLink.Proofs.Transfer.Outcome

/-!
# A target that is busy is left alone

There are two reasons to refuse an algorithm: the target is busy, or the runner is active.  They
come apart once a runner is used with TWO TARGETS: what it left running on the one says nothing
about the guard of the other.

* A start looks at both before it asks anything (`Runner.start_refused_calls`).  A transfer looks at
  the guard alone before it makes the ring empty, and learns of the other reason only after that:
  `Engine.Emptied` is what was asked by then.
* NOTHING ELSE IS EVER REPORTED AS A REFUSAL: behind the start, everything that can fail is
  `Blameless` (`Engine.Judgement.blameless`, `Engine.transfer_refused`).
* `Task.perform_refused` is the law, for all that a runner can be asked to do; `Task.not_left_alone`
  is a transfer that does not leave a free target alone.
-/

namespace DebugLink

open Environment Dialogue Transcript Error

variable {A : Arch} {h h' h₁ : Held A} {log : Transcript A}

/-- Such an error does not say that the runner is active. -/
theorem Error.Blameless.ne_alreadyRunning {err : Error} (h : err.Blameless) :
    err ≠ .alreadyRunning := by
  rintro rfl
  cases h

namespace Engine

variable {e : Engine} {flow : Flow} {patience : Nat} {data : List UInt8}

/-- The core was found halted, and both pointer words were written: the ring is empty. -/
inductive Emptied (e : Engine) : List (Exchange A) → Prop
  | intro {wp rp : A.Addr} (order order' : Endian) :
      A.addr? e.ring.wpAddr = some wp → A.addr? e.ring.rpAddr = some rp →
      Emptied e [⟨.poll, .ok .halted⟩,
        ⟨.write wp (order.encode 4 e.ring.fifoStart), .ok ()⟩,
        ⟨.write rp (order'.encode 4 e.ring.fifoStart), .ok ()⟩]

/-- The look at the core before a start. -/
theorem wp_requireHalted_calls {calls : List (Exchange A)}
    {Q : Except Error Unit → List (Exchange A) → Prop}
    (ok : Q (.ok ()) (calls ++ [⟨.poll, .ok .halted⟩]))
    (err : ∀ err calls, err ≠ .alreadyRunning → Q (.error err) calls) :
    (callLog A).wp (fun _ => True) (Runner.requireHalted (A := A)).run Q calls := by
  refine wp_andThen (wp_callLog ?_)
  rintro (e | state)
  · exact err _ _ (blameless_ofTarget e).ne_alreadyRunning
  · show (callLog A).wp _ (ExceptT.run (if state ≠ .halted then _ else _)) _ _
    split
    · exact wp_callLog fun _ => err _ _ nofun
    · next hstate =>
      obtain rfl : state = .halted := Decidable.of_not_not hstate
      exact ok

/-- A pointer word. -/
theorem wp_putPointer_calls {place value : Nat} {calls : List (Exchange A)}
    {Q : Except Error Unit → List (Exchange A) → Prop}
    (ok : ∀ a order, A.addr? place = some a →
      Q (.ok ()) (calls ++ [⟨.write a (Endian.encode order 4 value), .ok ()⟩]))
    (err : ∀ err calls, err ≠ .alreadyRunning → Q (.error err) calls) :
    (callLog A).wp (fun _ => True) (putPointer place value).run Q calls := by
  rw [putPointer, address]
  cases hplace : A.addr? place with
  | none => exact err _ _ Error.noConfusion
  | some a =>
      refine wp_callLog fun order => wp_callLog fun _ => wp_callLog ?_
      rintro (e | _)
      · exact err _ _ (blameless_ofTarget e).ne_alreadyRunning
      · simp only [Event.exchange?, Option.toList, List.append_nil]
        exact ok a order hplace

/-- What was asked when a transfer is refused.  The runner is looked at last. -/
theorem begin_refused_calls
    (run : ((e.begin flow).run.run h).Path log (.error .alreadyRunning, h')) :
    h' = h ∧ (h.busy = true ∧ log.exchanges = [] ∨
      h.busy = false ∧ h.runner.state.isActive = true ∧ e.Emptied log.exchanges) := by
  suffices hwp : (callLog A).wp (fun _ => True) ((e.begin flow).run.run h) (fun r calls =>
      r.1 = .error .alreadyRunning → r.2 = h ∧ (h.busy = true ∧ calls = [] ∨
        h.busy = false ∧ h.runner.state.isActive = true ∧ e.Emptied calls)) [] from
    path_callLog hwp run rfl
  refine wp_get ?_
  cases hbusy : h.busy with
  | true => exact wp_callLog fun _ _ => ⟨rfl, Or.inl ⟨rfl, rfl⟩⟩
  | false =>
      -- a failure on the way to the start has another name
      have hother : ∀ {P : Prop} {err : Error}, err ≠ .alreadyRunning →
          (.error err : Except Error Unit) = .error .alreadyRunning → P :=
        fun hne heq => absurd (Except.error.inj heq) hne
      refine wp_seq (wp_lift (wp_requireHalted_calls ?_ fun _ _ => hother))
      refine wp_seq (wp_lift (wp_putPointer_calls ?_ fun _ _ => hother))
      intro wp order hwp
      refine wp_seq (wp_lift (wp_putPointer_calls ?_ fun _ _ => hother))
      intro rp order' hrp
      cases hactive : h.runner.state.isActive with
      | true =>
          have hstart := Runner.start_active hbusy hactive
          refine wp_seq (wp_outcome ?_)
          rw [hstart]
          exact wp_callLog fun _ _ =>
            ⟨rfl, Or.inr ⟨rfl, rfl, .intro order order' hwp hrp⟩⟩
      | false =>
          refine wp_seq (wp_outcome (wp_mono
            (wp_of_within (Runner.start_fails hbusy hactive) _) ?_))
          rintro ⟨err | _, h₁⟩ calls hfails
          · exact wp_callLog fun _ => hother (hfails err rfl)
          · exact nofun

/-- At its end a transfer does not report a misuse. -/
theorem Judgement.blameless {partner : Nat} {stats : Stats} {moved : Except Error Unit}
    {waited : Except Error Runner.Settled} {last : Transcript A} {outcome : Outcome}
    (hjudged : Judgement flow partner stats moved waited last outcome)
    (hmoved : FailsAs Blameless moved) (hwaited : FailsAs Blameless waited) {err : Error}
    (hfailure : outcome.failure? = some err) : err.Blameless := by
  have hlook : FailsAlone (A := A) Blameless (lastLook partner) :=
    .bind (address_fails partner) fun _ => (readWord_fails _ _).weaken fun _ => Mishap.blameless
  cases hjudged with
  | undecided moved => cases hfailure
  | both err waitError =>
      cases hfailure
      exact hmoved _ rfl
  | loop err =>
      cases hfailure
      exact hmoved _ rfl
  | wait waitError =>
      cases hfailure
      exact hwaited _ rfl
  | unread hread =>
      cases hfailure
      exact (hlook.path hread).2 _ rfl
  | zero hread =>
      cases hfailure
      rfl
  | finished hread hne => cases hfailure

/-- A transfer is refused by its beginning, or not at all. -/
theorem transfer_refused {outcome : Outcome}
    (run : ((e.transfer patience flow data).run h).Path log (outcome, h'))
    (hfailure : outcome.failure? = some .alreadyRunning) :
    (flow = .read → data.length % e.ring.block = 0) ∧
      ((e.begin flow).run.run h).Path log (.error .alreadyRunning, h') := by
  -- a length that the ring does not serve is another failure
  have hserves : flow = .read → data.length % e.ring.block = 0 := by
    rintro rfl
    by_contra hlength
    have hread : (e.read (A := A) patience data).run h = .done ((.failed
        { offset := 0
          error := .invalidRing "read length must be a multiple of the block size" }, data),
        h) := by
      rw [Engine.read, if_pos hlength]
      rfl
    rw [transfer, StateT.run_bind, hread] at run
    obtain ⟨-, heq⟩ := path_done.mp run
    cases heq
    cases hfailure
  refine ⟨hserves, ?_⟩
  rcases transfer_cases run with ⟨err, rfl, hrefused⟩ | ⟨begun, rest, h₁, rfl, hbegun⟩
  · obtain rfl : err = .alreadyRunning := Option.some.inj hfailure
    rcases hrefused with ⟨hflow, hlength, -⟩ | hbegun
    · exact absurd (hserves hflow) hlength
    · exact hbegun
  · obtain ⟨moving, after, moved, p, rfl, hmoving, hafter⟩ := transfer_path hbegun run
    obtain ⟨told, waiting, last, waited, rfl, -, hwait, hjudged⟩ := conclude_path hafter
    obtain ⟨-, -, -, hactive⟩ := (begin_guard h).path hbegun
    have hcarry : Fails (A := A) Blameless (e.carry flow data) := by
      cases flow with
      | write => exact feedAll_fails data
      | read => exact drainAll_fails data.length
    have hblame := hjudged.blameless ((hcarry {}).path hmoving).2
      ((Runner.wait_fails hactive _ _).path hwait).2 hfailure
    exact absurd rfl hblame.ne_alreadyRunning

end Engine

namespace Runner

/-- A start that is refused asks nothing. -/
theorem start_refused_calls
    (run : ((start (A := A)).run.run h).Path log (.error .alreadyRunning, h')) :
    h' = h ∧ (h.busy = true ∨ h.runner.state.isActive = true) ∧ log.exchanges = [] := by
  cases hbusy : h.busy with
  | true =>
      obtain ⟨runner, busy⟩ := h
      obtain rfl : busy = true := hbusy
      obtain ⟨_, rest, rfl, hrest⟩ := path_ask.mp run
      obtain ⟨rfl, heq⟩ := path_done.mp hrest
      cases heq
      exact ⟨rfl, Or.inl rfl, rfl⟩
  | false =>
      cases hactive : h.runner.state.isActive with
      | true =>
          rw [start_active hbusy hactive] at run
          obtain ⟨rfl, heq⟩ := path_done.mp run
          cases heq
          exact ⟨rfl, Or.inr rfl, rfl⟩
      | false => exact absurd rfl (((start_fails hbusy hactive).path run).2 _ rfl)

/-- Neither does a run: it is its start that is refused. -/
theorem run_refused_calls {patience : Nat}
    (run : ((Runner.run (A := A) patience).run.run h).Path log (.error .alreadyRunning, h')) :
    h' = h ∧ (h.busy = true ∨ h.runner.state.isActive = true) ∧ log.exchanges = [] := by
  rcases path_seq run with ⟨l₁, l₂, _, h₁, rfl, hstart, hwait⟩ | ⟨err, h₁, heq, hstart⟩
  · obtain ⟨-, -, -, hactive⟩ := (start_guard h).path hstart
    have hblame := ((wait_fails hactive _ _).path (path_get.mp hwait)).2 _ rfl
    exact absurd rfl hblame.ne_alreadyRunning
  · cases heq
    exact start_refused_calls hstart

end Runner

namespace Task

variable {task : Task}

/-- The engine that a task moves data with. -/
def engine? : Task → Option Engine
  | .write e .. | .read e .. => some e
  | .start | .wait .. | .run _ | .abandon => none

/-- What a task did that was refused because something runs. -/
structure Refused (task : Task) (h : Held A) (log : Transcript A) (h' : Held A) : Prop where
  starts : task.Starts
  /-- The guard, the runner's state, what it saved, its breakpoint. -/
  unchanged : h' = h
  taken : h.busy = true ∨ h.runner.state.isActive = true
  /-- Nothing was asked of the target, unless data was to be moved through the ring of a target that
      is not busy. -/
  calls : match task.engine? with
    | none => log.exchanges = []
    | some e => if h.busy then log.exchanges = [] else e.Emptied log.exchanges

/-- How a task fails that is the whole of a computation. -/
theorem path_failure {α : Type} {x : RunM A α} {err : Error}
    (run : ((do return failure? (← x.run) : StateT (Held A) (Dialogue A) _).run h).Path log
      (some err, h')) : (x.run.run h).Path log (.error err, h') := by
  obtain ⟨log, none, ⟨result, h₁⟩, rfl, hpath, hnone⟩ := path_bind.mp run
  obtain ⟨rfl, heq⟩ := path_done.mp hnone
  obtain ⟨hfailure, rfl⟩ := Prod.mk.inj heq
  cases result with
  | ok _ => cases hfailure
  | error err' =>
      cases hfailure
      rwa [List.append_nil]

/-- A transfer, and how it failed. -/
theorem path_transfer {e : Engine} (flow : Flow) {patience : Nat} {data : List UInt8} {err : Error}
    (htask : task = match flow with
      | .write => .write e patience data
      | .read => .read e patience data)
    (run : (task.perform.run h).Path log (some err, h')) :
    ∃ outcome, ((e.transfer patience flow data).run h).Path log (outcome, h') ∧
      outcome.failure? = some err := by
  subst htask
  cases flow with
  | write =>
      obtain ⟨log, none, ⟨outcome, h₁⟩, rfl, hpath, hnone⟩ := path_bind.mp run
      obtain ⟨rfl, heq⟩ := path_done.mp hnone
      obtain ⟨hfailure, rfl⟩ := Prod.mk.inj heq
      exact ⟨outcome, by rwa [List.append_nil], hfailure⟩
  | read =>
      obtain ⟨log, none, ⟨⟨outcome, filled⟩, h₁⟩, rfl, hpath, hnone⟩ := path_bind.mp run
      obtain ⟨rfl, heq⟩ := path_done.mp hnone
      obtain ⟨hfailure, rfl⟩ := Prod.mk.inj heq
      exact ⟨outcome, path_bind.mpr ⟨log, [], _, rfl, hpath, .done _⟩, hfailure⟩

/-- A transfer that is refused was refused at its start. -/
theorem refused_of_transfer {e : Engine} (flow : Flow) {patience : Nat} {data : List UInt8}
    (htask : task = match flow with
      | .write => .write e patience data
      | .read => .read e patience data)
    (run : (task.perform.run h).Path log (some .alreadyRunning, h')) : Refused task h log h' := by
  obtain ⟨outcome, htransfer, hfailure⟩ := path_transfer flow htask run
  obtain ⟨hserves, hbegin⟩ := Engine.transfer_refused htransfer hfailure
  obtain ⟨rfl, hcalls⟩ := Engine.begin_refused_calls hbegin
  have hengine : task.engine? = some e ∧ task.Starts := by
    subst htask
    cases flow with
    | write => exact ⟨rfl, trivial⟩
    | read => exact ⟨rfl, hserves rfl⟩
  have htaken : h'.busy = true ∨ h'.runner.state.isActive = true :=
    hcalls.imp And.left fun hc => hc.2.1
  refine ⟨hengine.2, rfl, htaken, ?_⟩
  rw [hengine.1]
  rcases hcalls with ⟨hbusy, hnone⟩ | ⟨hbusy, -, hemptied⟩
  · simp only [hbusy, if_true, hnone]
  · simpa [hbusy] using hemptied

/-- WHO IS REFUSED BECAUSE SOMETHING RUNS, leaves things as they are. -/
theorem perform_refused (run : (task.perform.run h).Path log (some .alreadyRunning, h')) :
    Refused task h log h' := by
  cases task with
  | start =>
      obtain ⟨hsame, htaken, hcalls⟩ := Runner.start_refused_calls (path_failure run)
      exact ⟨trivial, hsame, htaken, hcalls⟩
  | run patience =>
      obtain ⟨hsame, htaken, hcalls⟩ := Runner.run_refused_calls (path_failure run)
      exact ⟨trivial, hsame, htaken, hcalls⟩
  | wait patience timeout =>
      replace run := path_failure run
      cases hactive : h.runner.state.isActive with
      | true =>
          -- a wait and an abandonment fail for other reasons
          have hblame := ((Runner.wait_fails hactive _ _).path run).2 _ rfl
          exact absurd rfl hblame.ne_alreadyRunning
      | false =>
          replace run : ((if (!h.runner.state.isActive) = true then _ else _ :
            RunM A Runner.Settled).run.run h).Path log _ := run
          rw [hactive] at run
          cases (path_done.mp run).2
  | abandon =>
      replace run := path_failure run
      cases hactive : h.runner.state.isActive with
      | true =>
          have hblame := (Runner.abandon_fails hactive run _ rfl).blameless
          exact absurd rfl hblame.ne_alreadyRunning
      | false =>
          replace run : ((if (!h.runner.state.isActive) = true then _ else _ :
            RunM A Unit).run.run h).Path log _ := run
          rw [hactive] at run
          cases (path_done.mp run).2
  | write e patience data => exact refused_of_transfer .write rfl run
  | read e patience buffer => exact refused_of_transfer .read rfl run

/-- A runner that was started on another target. -/
def elsewhere : Runner (plainCore 32) :=
  (Engine.GivesUp.started .started true [(.pc, 0x40)]).runner

theorem elsewhere_started : ∃ log, ((Runner.start (A := plainCore 32)).run.run
    Engine.GivesUp.idle).Path log (.ok (), { runner := elsewhere, busy := true }) :=
  path_answer (.ok .halted) (path_answer (.ok 0x40) (path_answer () (path_answer (.ok ())
    ⟨[], .done _⟩)))

/-- What is asked of a free target when such a runner is to move data on it. -/
def intrusion : Transcript (plainCore 32) :=
  [⟨.call .poll, .ok .halted⟩,
    ⟨.feature .endian, Endian.little⟩, ⟨.note (.word 0x1000 0x1008), ()⟩,
    ⟨.call (.write 0x1000#32 (Endian.little.encode 4 0x1008)), .ok ()⟩,
    ⟨.feature .endian, Endian.little⟩, ⟨.note (.word 0x1004 0x1008), ()⟩,
    ⟨.call (.write 0x1004#32 (Endian.little.encode 4 0x1008)), .ok ()⟩,
    ⟨.note (.startFailed .write), ()⟩]

theorem intruded : ((Task.write ⟨.twoWords, {}⟩ 1 [1]).perform.run
    { runner := elsewhere, busy := false }).Path intrusion
    (some .alreadyRunning, { runner := elsewhere, busy := false }) :=
  .ask _ (.ask _ (.ask _ (.ask _ (.ask _ (.ask _ (.ask _ (.ask _ (.done _))))))))

theorem refused_elsewhere :
    ((Task.write ⟨.twoWords, {}⟩ 1 [1]).perform.run { runner := elsewhere, busy := false }).Path
      intrusion (some .alreadyRunning, { runner := elsewhere, busy := false }) ∧
    Refused (.write ⟨.twoWords, {}⟩ 1 [1]) { runner := elsewhere, busy := false } intrusion
      { runner := elsewhere, busy := false } :=
  ⟨intruded, perform_refused intruded⟩

/-- Not every target is left alone: one that is free and halted has its ring made empty on behalf of
    a runner that another target is busy with. -/
theorem not_left_alone :
    ¬ ∀ (idle started : Held (plainCore 32)) (starting : Transcript (plainCore 32)),
      ((Runner.start (A := plainCore 32)).run.run idle).Path starting (.ok (), started) →
      ∀ (task : Task) (log : Transcript (plainCore 32)) (h' : Held (plainCore 32)),
        (task.perform.run { runner := started.runner, busy := false }).Path log
          (some .alreadyRunning, h') →
        ∀ x ∈ log.exchanges, ∀ address bytes, x.call ≠ .write address bytes := by
  intro h
  obtain ⟨starting, hstarted⟩ := elsewhere_started
  refine h _ _ _ hstarted _ _ _ intruded
    ⟨.write 0x1000#32 (Endian.little.encode 4 0x1008), .ok ()⟩ ?_ _ _ rfl
  exact List.mem_cons_of_mem _ List.mem_cons_self

end Task

end DebugLink
