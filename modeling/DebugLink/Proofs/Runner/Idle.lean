import DebugLink.Proofs.Runner.OneAtATime

/-!
# An idle runner holds nothing

A runner remembers registers to put back and a breakpoint to remove while its algorithm is on
the target, and ONLY then.  `Held.Tidy` says so.  It is kept by every task, whatever the target
and the host answer (`Task.perform_tidy`), hence it holds of every runner of every bay that comes
about (`Bay.Reachable.tidy`).

The heart of it is that clean-up forgets first and acts afterwards: `disarm_ends` and
`restoreContext_ends` say exactly what is left in the runner, be the accesses refused or not.
-/

namespace DebugLink

open Dialogue

variable {A : Arch} {α : Type}

/-- Nothing is to be put back, and no breakpoint to be removed. -/
structure Runner.Bare (r : Runner A) : Prop where
  saved : r.saved = []
  breakpoint : r.breakpoint = none

/-- Only a runner whose algorithm is on the target has something to undo. -/
def Held.Tidy (h : Held A) : Prop :=
  h.runner.state.isActive = false → h.runner.Bare

/-- However it is answered, it ends in `Q`. -/
abbrev Dialogue.Ends (d : Dialogue A α) (Q : α → Prop) : Prop :=
  d.Within (fun _ => True) Q

/-- Which operations it asks for does not matter here. -/
theorem Dialogue.Within.ends {K : Op A → Prop} {d : Dialogue A α} {Q : α → Prop}
    (h : d.Within K Q) : d.Ends Q :=
  h.weaken fun _ _ => trivial

/-- As long as the algorithm is on the target, anything may be left to undo. -/
theorem Held.tidy_of_active {h : Held A} (ha : h.runner.state.isActive = true) : h.Tidy :=
  fun hidle => absurd (ha.symm.trans hidle) (by simp)

namespace Runner

/-! ## Cleaning up -/

/-- The breakpoint is forgotten, and nothing else. -/
theorem disarm_ends (h : Held A) :
    ((disarm (A := A)).run.run h).Ends
      fun r => r.2 = { h with runner.breakpoint := none } := by
  refine .get ?_
  dsimp only
  split
  · next hb =>
    obtain ⟨⟨image, regs, saved, breakpoint, state, pollInterval⟩, busy⟩ := h
    obtain rfl : breakpoint = none := hb
    exact rfl
  · refine ⟨trivial, ?_⟩
    rintro (_ | _)
    · exact rfl
    · refine ⟨trivial, ?_⟩
      rintro (_ | _ | _)
      · exact rfl
      · exact ⟨trivial, fun _ => rfl⟩
      · exact rfl

/-- The saved registers are forgotten, and nothing else. -/
theorem restoreContext_ends (h : Held A) :
    ((restoreContext (A := A)).run.run h).Ends fun r => r.2 = { h with runner.saved := [] } := by
  refine .seq (.seq (.seq (.liftDialogue ((writeEach_gentle h.runner.saved).ends.mono ?_))))
  rintro (_ | _) _ <;> exact rfl

/-- Collecting begins with the breakpoint, and does not come back to it. -/
theorem collect_ends (h : Held A) :
    ((collect (A := A)).run.run h).Ends fun r => r.2.runner.breakpoint = none := by
  rw [collect_eq]
  refine .seq ((disarm_ends h).mono ?_)
  rintro ⟨_ | _, _⟩ rfl
  · exact rfl
  · exact (gather_gentle.through (fun h => h.runner.breakpoint) _).ends

/-! ## What a runner is asked to do -/

variable {h : Held A}

/-- A start that fails cleans up. -/
theorem start_tidy (ht : h.Tidy) : ((start (A := A)).run.run h).Ends fun r => r.2.Tidy := by
  show ((if h.busy = true then _ else _ : RunM A Unit).run.run h).Within _ _
  split
  · exact ⟨trivial, fun _ => ht⟩
  · show ((if h.runner.state.isActive = true then _ else _ : RunM A Unit).run.run h).Within _ _
    split
    · exact ht
    · refine .seq (.lift ((only_any _).mono ?_))
      rintro (e | _) _
      · exact ht
      · refine .seq (.outcome ((only_any _).mono ?_))
        rintro ⟨e | _, h₁⟩ _
        · refine .seq (.outcome ((disarm_ends h₁).mono ?_))
          rintro ⟨_, _⟩ rfl
          refine .seq (.outcome ((restoreContext_ends _).mono ?_))
          rintro ⟨_, _⟩ rfl
          exact fun _ => ⟨rfl, rfl⟩
        · exact Held.tidy_of_active rfl

/-- The end of a run cleans up. -/
theorem finish_tidy (h : Held A) : ((finish (A := A)).run.run h).Ends fun r => r.2.Tidy := by
  refine .seq (.outcome ((collect_ends h).mono ?_))
  rintro ⟨collected, h₁⟩ hb
  refine .seq (.outcome ((restoreContext_ends h₁).mono ?_))
  rintro ⟨restored, _⟩ rfl
  dsimp only
  split
  · exact fun _ => ⟨rfl, hb⟩
  · exact fun _ => ⟨rfl, hb⟩

/-- A wait gives nothing up halfway: it cleans up, or the algorithm stays on the target. -/
theorem wait_tidy (ht : h.Tidy) (patience timeout : Nat) :
    ((wait (A := A) patience timeout).run.run h).Ends fun r => r.2.Tidy := by
  show ((if (!h.runner.state.isActive) = true then _ else _ : RunM A Settled).run.run h).Within _ _
  split
  · exact ht
  · refine ⟨trivial, fun now => ?_⟩
    refine .seq (.liftDialogue ((watch_sparing _ _ _).ends.mono ?_))
    rintro watched _
    cases watched with
    | expired => exact ⟨trivial, fun _ => Held.tidy_of_active rfl⟩
    | halted =>
        refine .seq ((finish_tidy h).mono ?_)
        rintro ⟨e | _, h'⟩ ht'
        · exact ht'
        · exact ht'
    | _ => exact ht

/-- So does a run. -/
theorem run_tidy (ht : h.Tidy) (patience : Nat) :
    ((run (A := A) patience).run.run h).Ends fun r => r.2.Tidy := by
  refine .seq ((start_tidy ht).mono ?_)
  rintro ⟨e | _, h'⟩ ht'
  · exact ht'
  · exact .seq (wait_tidy ht' patience _)

/-- Giving up forgets everything, be it undone or not. -/
theorem abandon_tidy (ht : h.Tidy) :
    ((abandon (A := A)).run.run h).Ends fun r => r.2.Tidy := by
  show ((if (!h.runner.state.isActive) = true then _ else _ : RunM A Unit).run.run h).Within _ _
  split
  · exact ht
  · have hhalt : Confined (fun _ => True) (fun h : Held A => h) (call .halt : RunM A Unit) :=
      .call trivial
    refine ⟨trivial, fun _ => .seq (.outcome ((hhalt h).mono ?_))⟩
    rintro ⟨halted, _⟩ rfl
    refine .seq (.outcome ((disarm_ends _).mono ?_))
    rintro ⟨disarmed, _⟩ rfl
    -- the registers are put back, or given up
    have hlast : ∀ (h' : Held A) (r : Except Error Unit), h'.runner.Bare →
        Dialogue.Ends (A := A) (((do
          modify fun h => { runner := { h.runner with state := .aborted }, busy := false }
          MonadExcept.ofExcept r : RunM A Unit)).run.run h') (fun r => r.2.Tidy) := by
      rintro h' (e | _) hb <;> exact fun _ => ⟨hb.saved, hb.breakpoint⟩
    refine ⟨trivial, ?_⟩
    rintro (e | state)
    · exact hlast _ _ ⟨rfl, rfl⟩
    · cases state with
      | halted =>
          refine .seq (.outcome ((restoreContext_ends _).mono ?_))
          rintro ⟨restored, _⟩ rfl
          exact hlast _ _ ⟨rfl, rfl⟩
      | _ => exact hlast _ _ ⟨rfl, rfl⟩

end Runner

namespace Engine

variable {h : Held A} {e : Engine}

/-- What comes before the start leaves the runner alone. -/
theorem begin_tidy (ht : h.Tidy) (flow : Flow) :
    ((e.begin flow).run.run h).Ends fun r => r.2.Tidy := by
  show ((if h.busy = true then _ else _ : RunM A Unit).run.run h).Within _ _
  split
  · exact ⟨trivial, fun _ => ht⟩
  · refine .seq (.lift ((only_any _).mono ?_))
    rintro (e | _) _
    · exact ht
    · refine .seq (.lift ((only_any _).mono ?_))
      rintro (e | _) _
      · exact ht
      · refine .seq (.lift ((only_any _).mono ?_))
        rintro (e | _) _
        · exact ht
        · refine .seq (.outcome ((Runner.start_tidy ht).mono ?_))
          rintro ⟨e | _, h'⟩ ht'
          · exact ⟨trivial, fun _ => ht'⟩
          · exact ht'

/-- After a write the runner is tidy, ... -/
theorem write_tidy (ht : h.Tidy) (patience : Nat) (data : List UInt8) :
    ((e.write (A := A) patience data).run h).Ends fun r => r.2.Tidy := by
  refine Within.bind ((begin_tidy ht .write).mono ?_)
  rintro ⟨e | _, h'⟩ ht'
  · exact ht'
  · refine Within.bind (Within.bind ((only_any _).mono ?_))
    rintro ⟨moved, progress⟩ _
    exact conclude_held (fun _ _ => trivial) (Runner.wait_tidy ht' _ _) (only_any _) (only_any _)
      _ _ _

/-- ... and after a read. -/
theorem read_tidy (ht : h.Tidy) (patience : Nat) (buffer : List UInt8) :
    ((e.read (A := A) patience buffer).run h).Ends fun r => r.2.Tidy := by
  rw [Engine.read]
  split
  · exact ht
  · refine Within.bind ((begin_tidy ht .read).mono ?_)
    rintro ⟨e | _, h'⟩ ht'
    · exact ht'
    · refine Within.bind (Within.bind ((only_any _).mono ?_))
      rintro ⟨moved, progress⟩ _
      exact Within.bind
        (conclude_held (fun _ _ => trivial) (Runner.wait_tidy ht' _ _) (only_any _) (only_any _)
          _ _ _)

end Engine

/-- WHATEVER IS ASKED OF A RUNNER, AND WHATEVER IS ANSWERED, it is tidy afterwards. -/
theorem Task.perform_tidy {h : Held A} (ht : h.Tidy) (task : Task) :
    (task.perform.run h).Ends fun r => r.2.Tidy := by
  cases task with
  | start => exact Within.bind (Runner.start_tidy ht)
  | wait patience timeout => exact Within.bind (Runner.wait_tidy ht patience timeout)
  | run patience => exact Within.bind (Runner.run_tidy ht patience)
  | abandon => exact Within.bind (Runner.abandon_tidy ht)
  | write engine patience data => exact Within.bind (Engine.write_tidy ht patience data)
  | read engine patience buffer => exact Within.bind (Engine.read_tidy ht patience buffer)

namespace Bay

variable {bay : Bay A}

/-- A runner that is not active holds nothing. -/
theorem Reachable.tidy (hr : Reachable bay) :
    ∀ r ∈ bay.runners, r.state.isActive = false → r.Bare := by
  induction hr with
  | empty => exact nofun
  | accept pollInterval _ hacc ih =>
      obtain ⟨regs, -, -, rfl⟩ := Runner.eq_of_ofImage? hacc
      intro r hr
      rcases List.mem_append.mp hr with hr | hr
      · exact ih r hr
      · obtain rfl := List.mem_singleton.mp hr
        exact fun _ => ⟨rfl, rfl⟩
  | drop i _ _ ih => exact fun r hr => ih r (List.mem_of_mem_eraseIdx hr)
  | @perform bay bay' i task error log _ hreach ih =>
      have hheld : (bay.held i).Tidy := ih _ (List.getElem_mem i.isLt)
      have hends : (bay.perform i task).Ends fun r =>
          ∀ r' ∈ r.2.runners, r'.state.isActive = false → r'.Bare := by
        refine Within.bind ((task.perform_tidy hheld).mono ?_)
        rintro ⟨error, h'⟩ ht r hr
        rcases List.mem_or_eq_of_mem_set hr with hr | rfl
        · exact ih r hr
        · exact ht
      exact hends.of_reaches hreach

end Bay

end DebugLink
