import DebugLink.Proofs.Exchanges
import DebugLink.Proofs.Runner.Failures

/-!
# Giving up always releases

Giving up on an algorithm is four steps, each of which may fail: the core is asked to halt, the exit
breakpoint is removed, the core is looked at, and the registers are put back if it has stopped.
NONE OF THEM IS LEFT OUT BECAUSE ANOTHER ONE FAILED, and what the host remembers afterwards is the
same in all cases.

* `abandon_parts` takes it apart into the steps; `disarm_calls` and `writeEach_calls` say what the
  removal and the restore ask.  The restore is a loop: the induction is on the registers, and a
  refusal does not end it.
* `firstRefusal` is what is reported: `disarm_calls` and `writeEach_calls` carry it along, and the
  look at the core has no part in it.
* `Released` is the result, with what it means for whatever is asked of the runner next.
-/

namespace DebugLink

open Dialogue Transcript

variable {A : Arch}

/-- What a refused call means to the operation that needed it. -/
def Exchange.refusal? (x : Exchange A) : Option Error :=
  failure? (x.answer.mapError .ofTarget)

/-- The first refusal, as an error. -/
def firstRefusal (calls : List (Exchange A)) : Option Error :=
  calls.findSome? Exchange.refusal?

/-- The first refusal is in front, or else behind. -/
theorem firstRefusal_append (calls more : List (Exchange A)) :
    firstRefusal (calls ++ more) = (firstRefusal calls).or (firstRefusal more) :=
  List.findSome?_append

theorem firstRefusal_cons (x : Exchange A) (calls : List (Exchange A)) :
    firstRefusal (x :: calls) = x.refusal?.or (firstRefusal calls) := by
  rw [firstRefusal, List.findSome?_cons]
  cases x.refusal? <;> rfl

/-- Of two results the first failure counts. -/
theorem failure?_seqRight {α β : Type} (r : Except Error α) (r' : Except Error β) :
    failure? (r *> r') = (failure? r).or (failure? r') := by
  cases r with
  | ok a => cases r' <;> rfl
  | error err => rfl

/-- The core, its breakpoints and its registers are seen to; memory is left alone, and nothing is
    let go. -/
def Call.Clears : Call A → Prop
  | .halt | .removeBreakpoint .. | .poll | .writeReg .. => True
  | _ => False

namespace Runner

variable {h h' : Held A} {log : Transcript A} {result : Except Error Unit}

/-- The call that removes the exit breakpoint, if it is set. -/
def removal (r : Runner A) : List (Call A) :=
  r.breakpoint.toList.map (.removeBreakpoint · r.exitKind)

/-- The calls that put back what was saved. -/
def restores (r : Runner A) : List (Call A) :=
  r.saved.map fun entry => .writeReg entry.1 entry.2

/-- The breakpoint is removed if it is set, unless the target says that it has none; a target that
    does not know it is no failure. -/
theorem disarm_calls (run : ((disarm (A := A)).run.run h).Path log (result, h')) :
    h' = { h with runner.breakpoint := none } ∧ failure? result = firstRefusal log.exchanges ∧
      (log.exchanges.map (·.call) = h.runner.removal ∨
        log.exchanges = [] ∧ ⟨.feature .breakpoints, false⟩ ∈ log) := by
  refine ⟨((disarm_ends h).path run).2, ?_⟩
  replace run := path_get.mp run
  dsimp only at run
  split at run
  · next hnone =>
    obtain ⟨rfl, heq⟩ := path_done.mp run
    cases heq
    exact ⟨rfl, Or.inl (by rw [removal, hnone]; rfl)⟩
  · next address hset =>
    have hremoval : h.runner.removal = [.removeBreakpoint address h.runner.exitKind] := by
      rw [removal, hset]
      rfl
    obtain ⟨supported, rest, rfl, hasked⟩ := path_ask.mp run
    -- a target that denies breakpoints is not asked to remove one
    cases supported with
    | false =>
        obtain ⟨rfl, heq⟩ := path_done.mp hasked
        cases heq
        exact ⟨rfl, Or.inr ⟨rfl, List.mem_singleton_self _⟩⟩
    | true =>
        obtain ⟨answer, rest, rfl, hremoved⟩ := path_ask.mp hasked
        rw [hremoval]
        rcases answer with e | _ | _
        · obtain ⟨rfl, heq⟩ := path_done.mp hremoved
          cases heq
          exact ⟨rfl, Or.inl rfl⟩
        · obtain ⟨_, rest, rfl, hnoted⟩ := path_ask.mp hremoved
          obtain ⟨rfl, heq⟩ := path_done.mp hnoted
          cases heq
          exact ⟨rfl, Or.inl rfl⟩
        · obtain ⟨rfl, heq⟩ := path_done.mp hremoved
          cases heq
          exact ⟨rfl, Or.inl rfl⟩

/-- Every register is written, also behind one that could not be. -/
theorem writeEach_calls {saved : List (A.Reg × A.Addr)} (run : (writeEach saved).Path log result) :
    log.exchanges.map (·.call) = saved.map (fun entry => .writeReg entry.1 entry.2) ∧
      failure? result = firstRefusal log.exchanges := by
  induction saved generalizing log result with
  | nil =>
      obtain ⟨rfl, rfl⟩ := path_done.mp run
      exact ⟨rfl, rfl⟩
  | cons entry saved ih =>
      obtain ⟨answer, rest, rfl, hwritten⟩ := path_ask.mp run
      cases answer with
      | ok _ =>
          obtain ⟨hcalls, hfirst⟩ := ih hwritten
          exact ⟨congrArg (List.cons _) hcalls, hfirst⟩
      | error e =>
          obtain ⟨_, rest, rfl, hnoted⟩ := path_ask.mp hwritten
          obtain ⟨behind, none, _, rfl, hbehind, hnone⟩ :=
            (path_bind (d := writeEach saved)).mp hnoted
          obtain ⟨rfl, rfl⟩ := path_done.mp hnone
          rw [List.append_nil]
          exact ⟨congrArg (List.cons _) (ih hbehind).1, rfl⟩

/-- What was saved is forgotten, and written back. -/
theorem restoreContext_parts (run : ((restoreContext (A := A)).run.run h).Path log (result, h')) :
    h' = { h with runner.saved := [] } ∧ (writeEach h.runner.saved).Path log result := by
  refine ⟨((restoreContext_ends h).path run).2, ?_⟩
  replace run : ((liftM (writeEach h.runner.saved) >>= MonadExcept.ofExcept :
    RunM A Unit).run.run { h with runner.saved := [] }).Path log (result, h') := run
  rcases path_seq run with ⟨l₁, l₂, written, h₁, rfl, hwrite, hdone⟩ | ⟨err, h₁, -, hwrite⟩
  · obtain ⟨_, heq, hwritten⟩ := path_liftDialogue.mp hwrite
    cases heq
    cases written with
    | ok _ =>
        obtain ⟨rfl, heq⟩ := path_done.mp hdone
        cases heq
        rwa [List.append_nil]
    | error err =>
        obtain ⟨rfl, heq⟩ := path_done.mp hdone
        cases heq
        rwa [List.append_nil]
  · obtain ⟨_, heq, -⟩ := path_liftDialogue.mp hwrite
    cases heq

/-- The steps of giving up. -/
theorem abandon_parts (hactive : h.runner.state.isActive = true)
    (run : ((abandon (A := A)).run.run h).Path log (result, h')) :
    ∃ (halted : Except TargetError Unit) (removing restoring : Transcript A)
      (disarmed : Except Error Unit) (polled : Except TargetError ExecState)
      (restored : Except Error Unit),
      log = ⟨.note (.abandoning h.runner.image.entry.toNat), ()⟩ :: ⟨.call .halt, halted⟩ ::
        (removing ++ ⟨.call .poll, polled⟩ :: restoring) ∧
      ((disarm (A := A)).run.run h).Path removing
        (disarmed, { h with runner.breakpoint := none }) ∧
      (polled = .ok .halted → (writeEach h.runner.saved).Path restoring restored) ∧
      (polled ≠ .ok .halted → restoring = [] ∧ restored = .ok ()) ∧
      result = (halted.mapError .ofTarget *> disarmed *> restored) ∧
      h' = { runner := { h.runner with state := .aborted, breakpoint := none, saved := [] }
             busy := false } := by
  replace run : ((if (!h.runner.state.isActive) = true then _ else _ :
    RunM A Unit).run.run h).Path log (result, h') := run
  rw [hactive] at run
  obtain ⟨_, l, rfl, hnoted⟩ := path_ask.mp run
  -- the halt: its outcome is kept for the end, and the runner goes on either way
  obtain ⟨halting, l, halted, h₀, rfl, hhalt, hdisarming⟩ := path_outcome hnoted
  obtain ⟨halt, none, rfl, hhalted⟩ := path_ask.mp hhalt
  obtain ⟨rfl, hheld, rfl⟩ : none = [] ∧ h = h₀ ∧ halt.mapError .ofTarget = halted := by
    cases halt with
    | ok _ =>
        obtain ⟨rfl, heq⟩ := path_done.mp hhalted
        cases heq
        exact ⟨rfl, rfl, rfl⟩
    | error e =>
        obtain ⟨rfl, heq⟩ := path_done.mp hhalted
        cases heq
        exact ⟨rfl, rfl, rfl⟩
  subst hheld
  -- so is that of the removal, after which no breakpoint is remembered
  obtain ⟨removing, l, disarmed, h₁, rfl, hdisarm, hpolling⟩ := path_outcome hdisarming
  obtain rfl := (disarm_calls hdisarm).1
  obtain ⟨polled, restoring, rfl, hrestoring⟩ := path_ask.mp hpolling
  -- what is left when the registers have been seen to
  have hlast : ∀ {h₂ : Held A} {restored : Except Error Unit} {l : Transcript A},
      ((do
        modify fun h => { runner := { h.runner with state := .aborted }, busy := false }
        MonadExcept.ofExcept (halt.mapError Error.ofTarget *> disarmed *> restored) :
          RunM A Unit).run.run h₂).Path l (result, h') →
      l = [] ∧ result = (halt.mapError .ofTarget *> disarmed *> restored) ∧
        h' = { runner := { h₂.runner with state := .aborted }, busy := false } := by
    intro h₂ restored l hpath
    replace hpath : ((MonadExcept.ofExcept (halt.mapError Error.ofTarget *> disarmed *> restored) :
      RunM A Unit).run.run _).Path l (result, h') := hpath
    generalize (halt.mapError Error.ofTarget *> disarmed *> restored) = reported at hpath ⊢
    cases reported with
    | ok _ =>
        obtain ⟨rfl, heq⟩ := path_done.mp hpath
        cases heq
        exact ⟨rfl, rfl, rfl⟩
    | error err =>
        obtain ⟨rfl, heq⟩ := path_done.mp hpath
        cases heq
        exact ⟨rfl, rfl, rfl⟩
  -- registers can only be put back into a core that was seen halted
  by_cases hhalted : polled = .ok .halted
  · subst hhalted
    obtain ⟨restoring, l, restored, h₂, rfl, hrestore, hdone⟩ := path_outcome hrestoring
    obtain ⟨rfl, hwrite⟩ := restoreContext_parts hrestore
    obtain ⟨rfl, rfl, rfl⟩ := hlast hdone
    refine ⟨halt, removing, restoring, disarmed, _, restored, ?_, hdisarm, fun _ => hwrite,
      fun hne => absurd rfl hne, rfl, rfl⟩
    rw [List.append_nil]
    rfl
  · -- running, or the look was refused: what was saved is forgotten
    have hforgotten : restoring = [] ∧ result = (halt.mapError .ofTarget *> disarmed *> .ok ()) ∧
        h' = { runner := { h.runner with state := .aborted, breakpoint := none, saved := [] }
               busy := false } := by
      rcases polled with e | state
      · exact hlast hrestoring
      · cases state with
        | halted => exact absurd rfl hhalted
        | _ => exact hlast hrestoring
    obtain ⟨rfl, rfl, rfl⟩ := hforgotten
    exact ⟨halt, removing, [], disarmed, polled, .ok (), rfl, hdisarm,
      fun h => absurd h hhalted, fun _ => ⟨rfl, rfl⟩, rfl, rfl⟩

/-- Giving up fails with a refusal, or not at all. -/
theorem abandon_fails (hactive : h.runner.state.isActive = true)
    (run : ((abandon (A := A)).run.run h).Path log (result, h')) :
    FailsAs Error.Mishap result := by
  obtain ⟨halted, removing, restoring, disarmed, polled, restored, -, hdisarm, hstopped, hmoves,
    rfl, -⟩ := abandon_parts hactive run
  have hhalted : FailsAs Error.Mishap (halted.mapError Error.ofTarget) := by
    cases halted with
    | ok _ => exact failsAs_ok ()
    | error e => exact failsAs_error (Error.mishap_ofTarget e)
  have hrestored : FailsAs Error.Mishap restored := by
    by_cases hpolled : polled = .ok .halted
    · exact ((writeEach_fails _).path (hstopped hpolled)).2
    · rw [(hmoves hpolled).2]
      exact failsAs_ok ()
  exact (hhalted.seqRight ((disarm_fails h).path hdisarm).2).seqRight hrestored

/-- What giving up does, however its steps are answered. -/
structure Released (h : Held A) (log : Transcript A) (result : Except Error Unit)
    (h' : Held A) : Prop where
  /-- Each step is tried once, in this order; the registers are written if and only if the core was
      seen halted.  The first refusal is reported, unless it is that of the look at the core. -/
  calls : ∃ (halted : Except TargetError Unit) (removed : List (Exchange A))
      (polled : Except TargetError ExecState) (restored : List (Exchange A)),
    log.exchanges = ⟨.halt, halted⟩ :: (removed ++ ⟨.poll, polled⟩ :: restored) ∧
    (removed.map (·.call) = h.runner.removal ∨
      removed = [] ∧ ⟨.feature .breakpoints, false⟩ ∈ log) ∧
    (polled = .ok .halted → restored.map (·.call) = h.runner.restores) ∧
    (polled ≠ .ok .halted → restored = []) ∧
    failure? result = firstRefusal (⟨.halt, halted⟩ :: (removed ++ restored))
  /-- Memory is not touched, and nothing is let go. -/
  clears : ∀ x ∈ log.exchanges, x.call.Clears
  /-- The target is free, and the runner has nothing left to undo. -/
  free : h' = { runner := { h.runner with state := .aborted, breakpoint := none, saved := [] }
                busy := false }
  /-- The runner may be started again. -/
  restart : ∀ again started h'', ((start (A := A)).run.run h').Path again (started, h'') →
    started ≠ .error .alreadyRunning
  /-- There is nothing to wait for, and nothing to give up. -/
  wait : ∀ patience timeout,
    (Runner.wait (A := A) patience timeout).run.run h' = .done (.error .notRunning, h')
  abandon : (Runner.abandon (A := A)).run.run h' = .done (.error .notRunning, h')

/-- Calls that clear up do so whatever is answered. -/
theorem clears_of_calls {exchanges : List (Exchange A)} {calls : List (Call A)}
    (hcalls : exchanges.map (·.call) = calls) (h : ∀ call ∈ calls, call.Clears) :
    ∀ x ∈ exchanges, x.call.Clears :=
  fun _ hx => h _ (hcalls ▸ List.mem_map_of_mem hx)

/-- The removal of a breakpoint does, ... -/
theorem removal_clears (r : Runner A) : ∀ call ∈ r.removal, call.Clears := by
  intro call hcall
  obtain ⟨address, -, rfl⟩ := List.mem_map.mp hcall
  trivial

/-- ... and so does putting registers back. -/
theorem restores_clears (r : Runner A) : ∀ call ∈ r.restores, call.Clears := by
  intro call hcall
  obtain ⟨entry, -, rfl⟩ := List.mem_map.mp hcall
  trivial

/-- GIVING UP ALWAYS RELEASES, whatever the target answers. -/
theorem abandon_releases (hactive : h.runner.state.isActive = true)
    (run : ((abandon (A := A)).run.run h).Path log (result, h')) :
    Released h log result h' := by
  obtain ⟨halted, removing, restoring, disarmed, polled, restored, rfl, hdisarm, hstopped, hmoves,
    rfl, rfl⟩ := abandon_parts hactive run
  obtain ⟨-, hremoved, hremoval⟩ := disarm_calls hdisarm
  have hexchanges : exchanges (⟨.note (.abandoning h.runner.image.entry.toNat), ()⟩ ::
      ⟨.call .halt, halted⟩ :: (removing ++ ⟨.call .poll, polled⟩ :: restoring)) =
      ⟨.halt, halted⟩ :: (removing.exchanges ++ ⟨.poll, polled⟩ :: restoring.exchanges) :=
    congrArg (List.cons _) (exchanges_append removing (⟨.call .poll, polled⟩ :: restoring))
  -- the loop asks for every register if the core was halted, and is left out if not
  have hrestored : failure? restored = firstRefusal restoring.exchanges ∧
      (polled = .ok .halted → restoring.exchanges.map (·.call) = h.runner.restores) ∧
      (polled ≠ .ok .halted → restoring.exchanges = []) := by
    by_cases hpolled : polled = .ok .halted
    · obtain ⟨hcalls, hfirst⟩ := writeEach_calls (hstopped hpolled)
      exact ⟨hfirst, fun _ => hcalls, fun hne => absurd hpolled hne⟩
    · obtain ⟨rfl, rfl⟩ := hmoves hpolled
      exact ⟨rfl, fun hp => absurd hp hpolled, fun _ => rfl⟩
  obtain ⟨hfirst, hrestores, hnone⟩ := hrestored
  -- nothing in it writes to memory, or lets the core go
  have hremovalClears : ∀ x ∈ removing.exchanges, x.call.Clears := by
    rcases hremoval with hcalls | ⟨hnil, -⟩
    · exact clears_of_calls hcalls (removal_clears _)
    · rw [hnil]
      exact nofun
  have hrestoresClears : ∀ x ∈ restoring.exchanges, x.call.Clears := by
    by_cases hpolled : polled = .ok .halted
    · exact clears_of_calls (hrestores hpolled) (restores_clears _)
    · rw [hnone hpolled]
      exact nofun
  refine ⟨⟨halted, removing.exchanges, polled, restoring.exchanges, hexchanges, ?_, hrestores,
    hnone, ?_⟩, ?_, rfl, ?_, fun _ _ => rfl, rfl⟩
  · refine hremoval.imp id fun ⟨hnil, hfeature⟩ => ⟨hnil, ?_⟩
    exact List.mem_cons_of_mem _ (List.mem_cons_of_mem _ (List.mem_append_left _ hfeature))
  · -- the three results, step by step
    have hhalted : failure? (halted.mapError Error.ofTarget) =
        Exchange.refusal? (⟨.halt, halted⟩ : Exchange A) := rfl
    rw [failure?_seqRight, failure?_seqRight, hremoved, hfirst, hhalted, Option.or_assoc,
      ← firstRefusal_append]
    exact (firstRefusal_cons _ _).symm
  · rw [hexchanges]
    refine List.forall_mem_cons.mpr ⟨trivial, fun x hx => ?_⟩
    rcases List.mem_append.mp hx with hx | hx
    · exact hremovalClears x hx
    · rcases List.mem_cons.mp hx with rfl | hx
      · trivial
      · exact hrestoresClears x hx
  · rintro again started h'' hagain rfl
    exact ((start_fails rfl rfl).path hagain).2 _ rfl rfl

/-- A runner that timed out, with its exit breakpoint set and two registers saved. -/
def sampleLate : Held (plainCore 32) where
  runner :=
    { image := { entry := 0x2000, exit := 0x2010, info := () }
      regs := [.lr]
      saved := [(.pc, 0x40), (.lr, 7)]
      breakpoint := some 0x2010
      state := .timedOut }
  busy := true

/-- The core cannot be asked to halt, but has halted; the breakpoint is gone, and one of the
    registers cannot be written. -/
theorem abandon_releases_late : ∃ log h',
    sampleLate.runner.state.isActive = true ∧
    ((abandon (A := plainCore 32)).run.run sampleLate).Path log (.error (.errno 5), h') ∧
    log.exchanges.map (·.call) = [.halt, .removeBreakpoint 0x2010 1, .poll, .writeReg .pc 0x40,
      .writeReg .lr 7] ∧
    Released sampleLate log (.error (.errno 5)) h' := by
  have run : ((abandon (A := plainCore 32)).run.run sampleLate).Path
      [⟨.note (.abandoning 0x2000), ()⟩, ⟨.call .halt, .error (.errno 5)⟩,
        ⟨.feature .breakpoints, true⟩, ⟨.call (.removeBreakpoint 0x2010 1), .ok false⟩,
        ⟨.note (.breakpointGone 0x2010), ()⟩, ⟨.call .poll, .ok .halted⟩,
        ⟨.call (.writeReg .pc 0x40), .error .nonFatal⟩, ⟨.note (.registerNotRestored "Pc"), ()⟩,
        ⟨.call (.writeReg .lr 7), .ok ()⟩]
      (.error (.errno 5), { runner := { sampleLate.runner with
        state := .aborted, breakpoint := none, saved := [] }, busy := false }) :=
    .ask _ (.ask _ (.ask _ (.ask _ (.ask _ (.ask _ (.ask _ (.ask _ (.ask _ (.done _)))))))))
  exact ⟨_, _, rfl, run, rfl, abandon_releases rfl run⟩

end Runner

end DebugLink
