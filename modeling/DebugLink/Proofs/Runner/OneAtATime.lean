import DebugLink.Arch.Plain
import DebugLink.Proofs.Runner.Guard
import Mathlib.Data.List.Perm.Basic

/-!
# One algorithm at a time

A `Bay` is a target together with all runners that are used with it, and with nothing else.
`Reachable` is every bay that comes about by accepting images, performing tasks in any order,
and dropping runners that are not active; nothing is said about what the target and the host
answer.

* `Task.wp_perform` is the step: what a single task can do to a runner and to the guard.
* `Reachable.counted` is the invariant: as many runners are ACTIVE as the guard says.
* `Reachable.oneAtATime` draws the conclusions: a task that would start an algorithm on a busy
  target reports that and does nothing else, and the core is let go only where the guard is
  clear and the last poll found the core halted.
-/

namespace DebugLink

open Environment Transcript Dialogue

variable {A : Arch} {α : Type}

/-- What a runner can be asked to do on its target. -/
inductive Task where
  | start
  | wait (patience timeout : Nat)
  | run (patience : Nat)
  | abandon
  | write (engine : Engine) (patience : Nat) (data : List UInt8)
  | read (engine : Engine) (patience : Nat) (buffer : List UInt8)

/-- The error that an operation ended in, if it did. -/
def failure? : Except Error α → Option Error
  | .ok _ => none
  | .error e => some e

/-- The error that a transfer ended in, if it did. -/
def Outcome.failure? : Outcome → Option Error
  | .failed e => some e.error
  | .finished _ | .undecided => none

namespace Task

/-- Does a task, and says how it failed. -/
def perform : Task → StateT (Held A) (Dialogue A) (Option Error)
  | .start => return failure? (← Runner.start.run)
  | .wait patience timeout => return failure? (← (Runner.wait patience timeout).run)
  | .run patience => return failure? (← (Runner.run patience).run)
  | .abandon => return failure? (← Runner.abandon.run)
  | .write engine patience data => return (← engine.write patience data).failure?
  | .read engine patience buffer => return (← engine.read patience buffer).1.failure?

/-- Does the task get as far as starting an algorithm? A read of a length that the ring cannot
    serve does not. -/
def Starts : Task → Prop
  | .start | .run _ | .write .. => True
  | .read engine _ buffer => buffer.length % engine.ring.block = 0
  | .wait .. | .abandon => False

variable {h : Held A} {task : Task}

/-- On a busy target, such a task says so and does nothing else. -/
theorem perform_busy (hbusy : h.busy = true) (hs : task.Starts) :
    (task.perform (A := A)).run h =
      .ask (.note .alreadyRunning) fun _ => .done (some .alreadyRunning, h) := by
  obtain ⟨runner, busy⟩ := h
  obtain rfl : busy = true := hbusy
  cases task with
  | read engine patience buffer =>
      have hlen : ¬ buffer.length % engine.ring.block ≠ 0 := fun hne => hne hs
      simp only [perform, Engine.read, if_neg hlen]
      rfl
  | wait => exact hs.elim
  | abandon => exact hs.elim
  | _ => rfl

/-- What a task leaves behind: a guard that is up now was up before, or the core was let go; and
    either nothing has changed, or guard and runner told the same before and do so now. -/
structure Left (h h' : Held A) (log : Transcript A) : Prop where
  lawful : log.Lawful h.busy
  raised : h'.busy = true → h.busy = true ∨ log.Launched (.ok ())
  standing : h' = h ∨ h.Agrees ∧ h'.Agrees

/-- Nothing has changed, and the core rests. -/
theorem left_refl {log : Transcript A} (hlog : log.Rests) : Left h h log :=
  ⟨Or.inl hlog, Or.inl, Or.inl rfl⟩

/-- An algorithm that is on the target is waited for, or given up. -/
theorem wp_active {d : Dialogue A (α × Held A)} {f : α → Option Error} (hbusy : h.busy = true)
    (ha : h.Agrees) (hd : d.Within Op.Restful fun r => h.Follows r.2) :
    (recorder A).wp (Lawful h.busy) (d >>= fun r => .done (f r.1, r.2))
      (fun r log => Left h r.2 log) [] := by
  refine (wp_bind _ _).mpr (wp_mono (wp_within (kept_rests h.busy) hd nofun) ?_)
  rintro r log ⟨hlog, hf⟩
  exact ⟨Or.inl hlog, fun _ => Or.inl hbusy, Or.inr ⟨ha, hf.agrees ha⟩⟩

/-- A task that does not get to a start: it sees to an algorithm that is on the target, or does
    nothing. -/
theorem wp_perform_rest (ha : h.runner.state.isActive = true → h.busy = true)
    (hs : ¬ task.Starts) :
    (recorder A).wp (Lawful h.busy) (task.perform.run h) (fun r log => Left h r.2 log) [] := by
  have hnil : Rests ([] : Transcript A) := nofun
  have hagrees : h.runner.state.isActive = true → h.Agrees := fun hstate => by
    rw [Held.Agrees, ha hstate, hstate]
  cases task with
  | wait patience timeout =>
      cases hstate : h.runner.state.isActive with
      | true =>
          exact wp_active (ha hstate) (hagrees hstate)
            (Runner.wait_within h patience timeout)
      | false =>
          refine wp_then ?_
          show (recorder A).wp _ ((if (!h.runner.state.isActive) = true then _ else _ :
            RunM A _).run.run h) _ _
          rw [hstate]
          exact left_refl hnil
  | abandon =>
      cases hstate : h.runner.state.isActive with
      | true => exact wp_active (ha hstate) (hagrees hstate) (Runner.abandon_within h)
      | false =>
          refine wp_then ?_
          show (recorder A).wp _ ((if (!h.runner.state.isActive) = true then _ else _ :
            RunM A _).run.run h) _ _
          rw [hstate]
          exact left_refl hnil
  | read engine patience buffer =>
      refine wp_then ?_
      have hlen : buffer.length % engine.ring.block ≠ 0 := hs
      rw [Engine.read, if_pos hlen]
      exact left_refl hnil
  | _ => exact absurd trivial hs

/-- A run that has ended leaves both records in agreement. -/
theorem left_ended {h' : Held A} {log : Transcript A} (hbusy : h.busy = false)
    (hstate : h.runner.state.isActive = false) (he : Runner.Ended h' log) : Left h h' log := by
  obtain ⟨hlog, ha', hup⟩ := he
  refine ⟨?_, fun hb => Or.inr (hup hb), Or.inr ⟨?_, ha'⟩⟩
  · rw [hbusy]
    exact hlog
  · rw [Held.Agrees, hbusy, hstate]

/-- A task that gets to a start, on a target that is free. -/
theorem wp_perform_starts (hbusy : h.busy = false) (hstate : h.runner.state.isActive = false)
    (hs : task.Starts) :
    (recorder A).wp (Lawful false) (task.perform.run h) (fun r log => Left h r.2 log) [] := by
  have hnil : Rests ([] : Transcript A) := nofun
  cases task with
  | start =>
      refine wp_then (wp_mono (Runner.wp_start hbusy hstate hnil) ?_)
      rintro ⟨e | _, h'⟩ log hl
      · exact left_ended hbusy hstate (Runner.ended_idle hbusy hstate hl.2 hl.1)
      · exact left_ended hbusy hstate
          (Runner.ended_launched (Runner.started_agrees hl.2.1 hl.2.2) hl.1)
  | run patience =>
      refine wp_then (wp_mono (Runner.wp_run hbusy hstate hnil patience) ?_)
      exact fun _ _ he => left_ended hbusy hstate he
  | write engine patience data =>
      refine wp_then (wp_mono (Engine.wp_write hbusy hstate hnil patience data) ?_)
      exact fun _ _ he => left_ended hbusy hstate he
  | read engine patience buffer =>
      refine wp_then (wp_mono (Engine.wp_read hbusy hstate hnil patience buffer) ?_)
      exact fun _ _ he => left_ended hbusy hstate he
  | wait => exact hs.elim
  | abandon => exact hs.elim

/-- What a single task can do, whatever is answered to it. -/
theorem wp_perform (ha : h.runner.state.isActive = true → h.busy = true) (task : Task) :
    (recorder A).wp (Lawful h.busy) (task.perform.run h) (fun r log => Left h r.2 log) [] := by
  by_cases hs : task.Starts
  · cases hbusy : h.busy with
    | true =>
        rw [perform_busy hbusy hs]
        exact wp_kept (kept_rests true) trivial nofun fun _ hlog => left_refl hlog
    | false =>
        have hstate : h.runner.state.isActive = false := by
          rw [← Bool.not_eq_true]
          intro hstate
          exact absurd (ha hstate) (by rw [hbusy]; exact nofun)
        exact wp_perform_starts hbusy hstate hs
  · exact wp_perform_rest ha hs

end Task

/-- A target's guard, and the runners that are used with the target. -/
structure Bay (A : Arch) where
  runners : List (Runner A) := []
  busy : Bool := false

namespace Bay

variable {bay : Bay A}

/-- The bay as its runner at place `i` sees it. -/
def held (bay : Bay A) (i : Fin bay.runners.length) : Held A :=
  { runner := bay.runners[i], busy := bay.busy }

/-- Puts a runner back to its place. -/
def put (bay : Bay A) (i : Fin bay.runners.length) (h : Held A) : Bay A :=
  { runners := bay.runners.set i h.runner, busy := h.busy }

/-- Lets the runner at place `i` do a task. -/
def perform (bay : Bay A) (i : Fin bay.runners.length) (task : Task) :
    Dialogue A (Option Error × Bay A) := do
  let (error, h) ← task.perform.run (bay.held i)
  return (error, bay.put i h)

/-- How many algorithms are on the target, as the runners see it. -/
def active (bay : Bay A) : Nat :=
  bay.runners.countP fun r => r.state.isActive

/-- The bays that come about. -/
inductive Reachable : Bay A → Prop where
  | empty : Reachable {}
  | accept {bay : Bay A} {image : A.Img} {r : Runner A} (pollInterval : Nat) :
      Reachable bay → Runner.ofImage? image = .ok r →
      Reachable { bay with runners := bay.runners ++ [{ r with pollInterval }] }
  | drop {bay : Bay A} (i : Fin bay.runners.length) :
      Reachable bay → bay.runners[i].state.isActive = false →
      Reachable { bay with runners := bay.runners.eraseIdx i }
  | perform {bay bay' : Bay A} (i : Fin bay.runners.length) (task : Task) {error : Option Error}
      {log : Transcript A} :
      Reachable bay → (recorder A).Reaches (bay.perform i task) [] (.done (error, bay')) log →
      Reachable bay'

@[simp] theorem put_held (bay : Bay A) (i : Fin bay.runners.length) :
    bay.put i (bay.held i) = bay := by
  simp [put, held]

/-- Where as many runners are active as the guard says, an active one means that it is up. -/
theorem busy_of_active (hc : bay.active = bay.busy.toNat) (i : Fin bay.runners.length)
    (hi : bay.runners[i].state.isActive = true) : bay.busy = true := by
  have hpos : 0 < bay.active := List.countP_pos_iff.mpr ⟨_, List.getElem_mem i.isLt, hi⟩
  cases hb : bay.busy with
  | true => rfl
  | false =>
      rw [hc, hb] at hpos
      exact absurd hpos (Nat.lt_irrefl 0)

/-- Only the runner that is put back counts differently. -/
theorem active_put (bay : Bay A) (i : Fin bay.runners.length) (h : Held A) :
    (bay.put i h).active + (bay.runners[i].state.isActive).toNat =
      bay.active + (h.runner.state.isActive).toNat := by
  have hset := List.countP_set (p := fun r : Runner A => r.state.isActive) (a := h.runner) i.isLt
  have hle : (bay.runners[i].state.isActive).toNat ≤ bay.active := by
    cases hi : bay.runners[i].state.isActive with
    | true => exact List.countP_pos_iff.mpr ⟨_, List.getElem_mem i.isLt, hi⟩
    | false => exact Nat.zero_le _
  have hput : (bay.put i h).active = bay.active - (bay.runners[i].state.isActive).toNat
      + (h.runner.state.isActive).toNat := by
    rw [active, put, hset]
    cases hi : bay.runners[i].state.isActive <;> cases hh : h.runner.state.isActive <;>
      simp_all [active]
  omega

variable {i : Fin bay.runners.length} {task : Task}

theorem wp_perform (hc : bay.active = bay.busy.toNat) (i : Fin bay.runners.length) (task : Task) :
    (recorder A).wp (Lawful bay.busy) (bay.perform i task)
      (fun r log => ∃ h', r.2 = bay.put i h' ∧ Task.Left (bay.held i) h' log) [] := by
  refine (wp_bind _ _).mpr
    (wp_mono (Task.wp_perform (h := bay.held i) (busy_of_active hc i) task) ?_)
  rintro ⟨error, h'⟩ log hl
  exact ⟨h', rfl, hl⟩

/-- The guard stays a count of the active runners. -/
theorem counted_put (hc : bay.active = bay.busy.toNat) {h' : Held A} {log : Transcript A}
    (hl : Task.Left (bay.held i) h' log) : (bay.put i h').active = (bay.put i h').busy.toNat := by
  rcases hl.standing with rfl | ⟨ha, ha'⟩
  · rw [put_held]
    exact hc
  · have hput := active_put bay i h'
    have hbefore : bay.runners[i].state.isActive = bay.busy := ha.symm
    have hafter : h'.runner.state.isActive = h'.busy := ha'.symm
    rw [hbefore, hafter, hc] at hput
    show _ = h'.busy.toNat
    omega

/-- What a task did to a bay, as far as `Lawful` and `Left` tell. -/
theorem left_of_reaches (hc : bay.active = bay.busy.toNat) {bay' : Bay A} {error : Option Error}
    {log : Transcript A}
    (hr : (recorder A).Reaches (bay.perform i task) [] (.done (error, bay')) log) :
    ∃ h', bay' = bay.put i h' ∧ Task.Left (bay.held i) h' log :=
  wp_done_at (fun _ => lasts fun _ ⟨_, _, hl⟩ => hl.lawful) (wp_perform hc i task) hr

/-- As many runners are active as the guard says: one, or none. -/
theorem Reachable.counted (hr : Reachable bay) : bay.active = bay.busy.toNat := by
  induction hr with
  | empty => rfl
  | accept pollInterval _ hacc ih =>
      obtain ⟨regs, -, -, rfl⟩ := Runner.eq_of_ofImage? hacc
      rw [active, List.countP_append]
      exact ih
  | @drop bay i _ hi ih =>
      have hperm := List.getElem_cons_eraseIdx_perm i.isLt
      have hcount := hperm.countP_eq fun r => r.state.isActive
      rw [List.countP_cons_of_neg (by simpa using hi)] at hcount
      exact hcount.trans ih
  | perform i task _ hreach ih =>
      obtain ⟨h', rfl, hl⟩ := left_of_reaches ih hreach
      exact counted_put ih hl

/-- Where the guard says that nothing runs, no runner is active. -/
theorem inactive_of_counted (hc : bay.active = bay.busy.toNat) (hb : bay.busy = false)
    {r : Runner A} (hr : r ∈ bay.runners) : r.state.isActive = false := by
  rw [hb] at hc
  exact (Bool.not_eq_true _).mp (List.countP_eq_zero.mp hc r hr)

/-- A task that would start an algorithm on a busy target changes nothing, and reports it. -/
theorem perform_busy (hb : bay.busy = true) (i : Fin bay.runners.length) (hs : task.Starts) :
    bay.perform i task =
      .ask (.note .alreadyRunning) fun _ => .done (some .alreadyRunning, bay) := by
  rw [perform, Task.perform_busy hb hs]
  show Dialogue.ask _ (fun _ => Dialogue.done (_, bay.put i (bay.held i))) = _
  rw [put_held]

/-- Where the core is let go, the guard was clear, the last poll found the core halted, and the
    guard would still be clear if the target refused. -/
theorem clear_of_resume (hc : bay.active = bay.busy.toNat) {address : Option A.Addr}
    {flags : ResumeFlags} {next : Except TargetError Unit → Dialogue A (Option Error × Bay A)}
    {log : Transcript A}
    (hr : (recorder A).Reaches (bay.perform i task) [] (.ask (.call (.resume address flags)) next)
      log) (order : Endian) :
    bay.busy = false ∧ log.lastPoll? = some (.ok .halted) ∧
      ((Dialogue.ask (.call (.resume address flags)) next).cutOff order).2.busy = false := by
  -- the target refuses, and then the link goes down
  obtain ⟨rest, hcut⟩ := Transcript.reaches_cutOff order
    (next (.error .nonFatal)) (log ++ [⟨.call (.resume address flags), .error .nonFatal⟩])
  obtain ⟨h', hput, hl⟩ := left_of_reaches hc (hr.trans (.answer (.error .nonFatal) rfl hcut))
  rw [List.append_assoc, List.singleton_append] at hl
  rcases hl.lawful with hrests | ⟨hbusy, answer, hlaunched⟩
  · exact (hrests _ (List.mem_append_right _ List.mem_cons_self)).elim
  · obtain ⟨-, -, hpoll⟩ := hlaunched.unique
    refine ⟨hbusy, hpoll, ?_⟩
    show ((next (.error .nonFatal)).cutOff order).2.busy = false
    rw [hput]
    rw [← Bool.not_eq_true]
    intro hup
    rcases hl.raised hup with hb | hlaunched
    · exact absurd hb (by rw [hbusy]; exact nofun)
    · cases hlaunched.unique.1

/-- ONE ALGORITHM AT A TIME.  The guard is up if and only if exactly one runner is active, and
    down only if none is.  While it is up, every task that would start an algorithm fails on
    any runner without a call to the target, and changes nothing.  The core is let go only where
    the guard is clear and the last poll of the same task found the core halted. -/
theorem Reachable.oneAtATime (hr : Reachable bay) :
    (bay.busy = true ↔ bay.active = 1) ∧
    (bay.busy = false → ∀ r ∈ bay.runners, r.state.isActive = false) ∧
    (bay.busy = true → ∀ (i : Fin bay.runners.length) (task : Task), task.Starts →
      bay.perform i task =
        .ask (.note .alreadyRunning) fun _ => .done (some .alreadyRunning, bay)) ∧
    (∀ (i : Fin bay.runners.length) (task : Task) (address : Option A.Addr) (flags : ResumeFlags)
      (next : Except TargetError Unit → Dialogue A (Option Error × Bay A)) (log : Transcript A)
      (order : Endian),
      (recorder A).Reaches (bay.perform i task) [] (.ask (.call (.resume address flags)) next)
        log →
      bay.busy = false ∧ log.lastPoll? = some (.ok .halted) ∧
        ((Dialogue.ask (.call (.resume address flags)) next).cutOff order).2.busy = false) := by
  have hc := hr.counted
  refine ⟨?_, fun hb r hmem => inactive_of_counted hc hb hmem,
    fun hb i task hs => perform_busy hb i hs,
    fun i task address flags next log order hreach => clear_of_resume hc hreach order⟩
  rw [hc]
  cases bay.busy <;> decide

/-- An algorithm of a plain core without parameters, which halts on its own. -/
def sampleRunner : Runner (plainCore 32) where
  image := { entry := 0x1000, exit := 0, info := () }
  regs := []

/-- Two runners of it, the second of which was started. -/
def sample : Bay (plainCore 32) where
  runners := [sampleRunner, { sampleRunner with saved := [(.pc, 0x40)], state := .started }]
  busy := true

theorem sample_reachable : sample.Reachable := by
  have haccepted : Runner.ofImage? sampleRunner.image = .ok sampleRunner := rfl
  have hpair : Reachable { runners := [sampleRunner, sampleRunner] } :=
    .accept 1 (.accept 1 .empty haccepted) haccepted
  have hstart : ∃ log, (recorder (plainCore 32)).Reaches
      (perform { runners := [sampleRunner, sampleRunner] } (1 : Fin 2) .start) []
      (.done (none, sample)) log := by
    -- it is halted; the program counter is saved; there it goes
    exact ⟨_, .answer (.ok .halted) rfl (.answer (.ok 0x40) rfl
      (.answer () rfl (.answer (.ok ()) rfl (.refl _ _))))⟩
  obtain ⟨log, hlog⟩ := hstart
  exact .perform _ _ hpair hlog

theorem Reachable.oneAtATime_sample :
    sample.active = 1 ∧
      sample.perform (0 : Fin 2) .start =
        .ask (.note .alreadyRunning) fun _ => .done (some .alreadyRunning, sample) :=
  ⟨(Reachable.oneAtATime sample_reachable).1.mp rfl,
    (Reachable.oneAtATime sample_reachable).2.2.1 rfl _ _ trivial⟩

end Bay

end DebugLink
