import DebugLink.Proofs.Sim.Play
import DebugLink.Runner.Wait

/-!
# Letting a program go, and collecting it

What the host does on the simulated target before and after a transfer, for an image without
parameters:

* `Runner.yields_start`: the program that waits at the entry is AT WORK, the exit breakpoint is
  set, and memory is as it was.
* `Runner.yields_wait`: once a program has stopped at the exit point, the runner is completed, the
  breakpoints are as before, and memory is as the program left it.

Registers change on the way and are put back; `Alike` disregards them.
-/

namespace DebugLink

open Environment

namespace Sim

/-- Memory is as it was. -/
structure Intact (x x' : Sim) (status : Status) : Prop where
  memory : x'.core.memory = x.core.memory
  endian : x'.core.endian = x.core.endian
  status : x'.status = status

/-- Nothing has changed but registers and counters. -/
abbrev Alike (x x' : Sim) : Prop :=
  Intact x x' x.status

/-- A program waits on a halted target, at the entry of an image whose exit breakpoint can be
    set. -/
structure Waits (image : simCore.Img) (program : Program) (x : Sim) : Prop where
  halted : x.control.state = .halted
  programs : x.control.programs = [(image.entry, program)]
  hasBreakpoints : x.control.hasBreakpoints = true
  writable : x.control.failWrites = false
  free : image.exit ∉ x.control.breakpoints

/-- A program has stopped at `a`, where a breakpoint was set besides others. -/
structure Stopped (bps : List Word) (a : Word) (x : Sim) : Prop where
  status : x.status = .stopped (bps ++ [a])
  pc : x.core.regs.get .pc = a

variable {α : Type} {x x' x'' : Sim} {y : ManualHost} {image : simCore.Img} {program : Program}
  {bps : List Word} {Q : α → Sim × ManualHost → Prop}

theorem Intact.refl (x : Sim) : Alike x x := ⟨rfl, rfl, rfl⟩

/-- What was left alone twice was left alone. -/
theorem Intact.trans {s s' : Status} (h : Intact x x' s) (h' : Intact x' x'' s') :
    Intact x x'' s' :=
  ⟨h'.memory.trans h.memory, h'.endian.trans h.endian, h'.status⟩

theorem Intact.contents {s : Status} (h : Intact x x' s) : x'.core.contents = x.core.contents :=
  congrArg Memory.contents h.memory

/-- Only the status matters. -/
theorem Waits.congr (h : Waits image program x) (hs : x'.status = x.status) :
    Waits image program x' where
  halted := (congrArg Status.state hs).trans h.halted
  programs := (congrArg Status.programs hs).trans h.programs
  hasBreakpoints := (congrArg Status.hasBreakpoints hs).trans h.hasBreakpoints
  writable := (congrArg Status.failWrites hs).trans h.writable
  free := by
    have hb : x'.control.breakpoints = x.control.breakpoints := congrArg Status.breakpoints hs
    rw [hb]
    exact h.free

/-- The program is let go with one more breakpoint set. -/
theorem Waits.resumed (h : Waits image program x) (a : Word) :
    (Sim.resume { x with control.breakpoints := x.control.breakpoints ++ [a] }
      (some image.entry) .all).status = .running program (x.control.breakpoints ++ [a]) := by
  obtain ⟨c, k⟩ := x
  have hprograms : k.programs = [(image.entry, program)] := h.programs
  have hb : k.hasBreakpoints = true := h.hasBreakpoints
  have hw : k.failWrites = false := h.writable
  simp [Sim.resume, status, Status.running, ResumeFlags.all, hprograms, hb, hw]

/-! ## Registers -/

/-- A register is read. -/
theorem yields_readReg {reg : PlainReg} {next : Except TargetError Word → Dialogue simCore α}
    (hn : Yields (next (.ok (x.core.regs.get reg))) Q (x, y)) :
    Yields (.ask (.call (.readReg reg)) next) Q (x, y) :=
  wp_played hn

/-- A register is written, and the memory is not. -/
theorem yields_writeReg {reg : PlainReg} {v : Word}
    {next : Except TargetError Unit → Dialogue simCore α} (hw : x.status.failWrites = false)
    (hn : ∀ x', Alike x x' → Yields (next (.ok ())) Q (x', y)) :
    Yields (.ask (.call (.writeReg reg v)) next) Q (x, y) := by
  have hok : ¬ x.control.failWrites = true := by
    rw [show x.control.failWrites = false from hw]
    decide
  refine wp_played ?_
  simp only [play, Sim.target, perform, if_neg hok]
  exact hn _ ⟨rfl, rfl, rfl⟩

/-- A poll lets the program work first. -/
theorem yields_poll {next : Except TargetError ExecState → Dialogue simCore α}
    (hn : Yields (next (.ok x.step.control.state)) Q (x.step, y)) :
    Yields (.ask (.call .poll) next) Q (x, y) :=
  wp_played hn

end Sim

namespace Runner

open Sim

/-- A runner without parameters was started, and its exit breakpoint is set besides others. -/
structure Started (bps : List Word) (r : Runner simCore) : Prop where
  active : r.state.isActive = true
  mem : r.image.mem = []
  regs : r.image.regs = []
  breakpoint : r.breakpoint = some r.image.exit
  free : r.image.exit ∉ bps

variable {x : Sim} {y : ManualHost} {program : Program} {r : Runner simCore} {h : Held simCore}
  {bps : List Word}

/-! ## The start -/

/-- A halted core is found halted. -/
theorem yields_requireHalted {Q : Except Error Unit → Sim × ManualHost → Prop}
    (hs : x.control.state = .halted) (hn : Q (.ok ()) (x, y)) :
    Yields (requireHalted (A := simCore)).run Q (x, y) := by
  refine yields_poll ?_
  rw [step_halted hs]
  show Yields (ExceptT.run (if x.control.state ≠ .halted then _ else _ : Link simCore Unit)) _ _
  rw [if_neg (not_not_intro hs)]
  exact hn

/-- Saving registers changes nothing. -/
theorem yields_saveRegs (regs : List PlainReg) (h : Held simCore)
    {Q : Except Error Unit × Held simCore → Sim × ManualHost → Prop}
    (hn : ∀ saved, Q (.ok (), { h with runner.saved := saved }) (x, y)) :
    Yields ((saveRegs (A := simCore) regs).run.run h) Q (x, y) := by
  induction regs generalizing h with
  | nil => exact hn h.runner.saved
  | cons reg rest ih =>
      refine wp_get ?_
      split
      · exact yields_readReg (ih _ hn)
      · exact ih h hn

/-- Registers are written, one after the other. -/
theorem yields_writeContext (context : List (PlainReg × Word))
    {Q : Except Error Unit → Sim × ManualHost → Prop} (hw : x.status.failWrites = false)
    (hn : ∀ x', Alike x x' → Q (.ok ()) (x', y)) :
    Yields (writeContext (A := simCore) context).run Q (x, y) := by
  induction context generalizing x with
  | nil => exact hn x (Intact.refl x)
  | cons entry rest ih =>
      refine yields_writeReg hw fun x' hx' => ?_
      refine ih (hx'.status ▸ hw) fun x'' hx'' => ?_
      exact hn x'' (hx'.trans (hx'.status ▸ hx''))

/-- The exit breakpoint is set. -/
theorem yields_arm {Q : Except Error Unit × Held simCore → Sim × ManualHost → Prop}
    (hexit : h.runner.image.exit ≠ 0) (hx : Waits h.runner.image program x)
    (hn : Q (.ok (), { h with runner.breakpoint := some h.runner.image.exit })
      ({ x with control.breakpoints := x.control.breakpoints ++ [h.runner.image.exit] }, y)) :
    Yields ((arm (A := simCore)).run.run h) Q (x, y) := by
  have hfree : ¬ x.control.breakpoints.contains h.runner.image.exit = true :=
    fun hc => hx.free (List.contains_iff_mem.mp hc)
  refine wp_get ?_
  dsimp only
  rw [if_pos hexit]
  refine wp_played ?_
  show Yields (ExceptT.run (if (!x.control.hasBreakpoints) = true then _ else _ :
    RunM simCore Unit) h) Q (x, y)
  rw [hx.hasBreakpoints]
  refine wp_played ?_
  simp only [play, Sim.target, perform, if_neg hfree]
  exact hn

/-- Everything is brought into place, and the program that waits at the entry is let go. -/
theorem yields_launch {Q : Except Error Unit × Held simCore → Sim × ManualHost → Prop}
    (hmem : h.runner.image.mem = []) (hregs : h.runner.image.regs = [])
    (hexit : h.runner.image.exit ≠ 0) (hx : Waits h.runner.image program x)
    (hn : ∀ saved x', Intact x x'
        (.running program (x.control.breakpoints ++ [h.runner.image.exit])) →
      Q (.ok (), { h with
        runner.saved := saved
        runner.breakpoint := some h.runner.image.exit }) (x', y)) :
    Yields ((launch (A := simCore)).run.run h) Q (x, y) := by
  refine wp_seq (wp_modify (wp_get (wp_seq (yields_saveRegs _ _ fun saved => ?_))))
  -- there are no parameters to write
  show Yields (((liftM (writeMem h.runner.image.mem) : RunM simCore Unit) >>= fun _ =>
    (liftM (writeRegs (h.runner.image.regs.zip h.runner.regs)) : RunM simCore Unit) >>= fun _ =>
    (liftM (writeContext _) : RunM simCore Unit) >>= fun _ => arm).run.run _) _ _
  rw [hmem, hregs]
  show Yields (((liftM (writeContext _) : RunM simCore Unit) >>= fun _ => arm).run.run _) _ _
  refine wp_seq (wp_lift (yields_writeContext _ hx.writable fun x' hx' => ?_))
  have hw := hx.congr hx'.status
  refine yields_arm hexit hw ?_
  refine wp_get (plays_note (wp_played ?_))
  simp only [play, Sim.target, perform, if_pos hw.halted]
  refine hn saved _ ⟨hx'.memory, hx'.endian, ?_⟩
  have hb : x'.control.breakpoints = x.control.breakpoints :=
    congrArg Status.breakpoints hx'.status
  rw [← hb]
  exact hw.resumed h.runner.image.exit

/-- The runner has started its program, which is at work now. -/
theorem yields_start {Q : Except Error Unit × Held simCore → Sim × ManualHost → Prop}
    (hr : r.state.isActive = false) (hmem : r.image.mem = []) (hregs : r.image.regs = [])
    (hexit : r.image.exit ≠ 0) (hx : Waits r.image program x)
    (hn : ∀ r' x', r'.image = r.image → r'.pollInterval = r.pollInterval →
      Started x.control.breakpoints r' →
      Intact x x' (.running program (x.control.breakpoints ++ [r.image.exit])) →
      Q (.ok (), ⟨r', true⟩) (x', y)) :
    Yields ((start (A := simCore)).run.run ⟨r, false⟩) Q (x, y) := by
  refine wp_get ?_
  show Yields (StateT.run (ExceptT.run (if r.state.isActive = true then _ else _ :
    RunM simCore Unit)) _) _ _
  rw [hr]
  refine wp_seq (wp_lift (yields_requireHalted hx.halted ?_))
  refine wp_seq (wp_outcome (yields_launch hmem hregs hexit hx fun saved x' hx' => ?_))
  exact hn _ x' rfl rfl ⟨rfl, hmem, hregs, rfl, hx.free⟩ hx'

/-! ## The end -/

/-- The exit breakpoint is removed; those that were set before stay. -/
theorem yields_disarm {a : Word} {Q : Except Error Unit × Held simCore → Sim × ManualHost → Prop}
    (hb : h.runner.breakpoint = some a) (hs : x.status = .stopped (bps ++ [a])) (hfree : a ∉ bps)
    (hn : ∀ x', x'.core = x.core → x'.status = .stopped bps →
      Q (.ok (), { h with runner.breakpoint := none }) (x', y)) :
    Yields ((disarm (A := simCore)).run.run h) Q (x, y) := by
  have hbps : x.control.breakpoints = bps ++ [a] := congrArg Status.breakpoints hs
  have hon : x.control.hasBreakpoints = true := congrArg Status.hasBreakpoints hs
  have hset : x.control.breakpoints.contains a = true :=
    List.contains_iff_mem.mpr (by simp [hbps])
  have herase : (bps ++ [a]).erase a = bps := by
    rw [List.erase_append_right _ hfree, List.erase_cons_head, List.append_nil]
  refine wp_get ?_
  dsimp only
  rw [hb]
  refine wp_modify (wp_played ?_)
  show Yields (ExceptT.run (if x.control.hasBreakpoints = true then _ else _ : RunM simCore Unit) _)
    Q (x, y)
  rw [if_pos hon]
  refine wp_played ?_
  simp only [play, Sim.target, perform, if_pos hset]
  refine hn _ rfl ?_
  show { x.status with breakpoints := x.status.breakpoints.erase a } = Status.stopped bps
  rw [hs]
  exact congrArg Status.stopped herase

/-- The program has stopped where it should, and there are no parameters to read. -/
theorem yields_collect {Q : Except Error Unit × Held simCore → Sim × ManualHost → Prop}
    (hr : Started bps h.runner) (hs : Stopped bps h.runner.image.exit x)
    (hn : ∀ r x', x'.core = x.core → x'.status = .stopped bps → Q (.ok (), ⟨r, h.busy⟩) (x', y)) :
    Yields ((collect (A := simCore)).run.run h) Q (x, y) := by
  refine wp_seq (yields_disarm hr.breakpoint hs.status hr.free fun x' hcore hs' => ?_)
  refine wp_get (yields_readReg ?_)
  rw [hcore, hs.pc]
  have hexit : ¬ (h.runner.image.exit ≠ 0 ∧ h.runner.image.exit ≠ h.runner.image.exit) :=
    fun hne => hne.2 rfl
  show Yields (ExceptT.run (if h.runner.image.exit ≠ 0 ∧ h.runner.image.exit ≠ h.runner.image.exit
    then _ else _ : RunM simCore Unit) _) _ _
  rw [if_neg hexit]
  show Yields (((liftM (readMem h.runner.image.mem) : RunM simCore _) >>= _).run.run _) _ _
  rw [hr.mem]
  show Yields (((liftM (readRegs h.runner.image.regs h.runner.regs) : RunM simCore _) >>=
    _).run.run _) _ _
  rw [hr.regs]
  exact hn _ x' hcore hs'

/-- Putting registers back changes nothing else. -/
theorem yields_writeEach (saved : List (PlainReg × Word))
    {Q : Except Error Unit → Sim × ManualHost → Prop} (hw : x.status.failWrites = false)
    (hn : ∀ x', Alike x x' → Q (.ok ()) (x', y)) :
    Yields (writeEach (A := simCore) saved) Q (x, y) := by
  induction saved generalizing x with
  | nil => exact hn x (Intact.refl x)
  | cons entry rest ih =>
      refine yields_writeReg hw fun x' hx' => ?_
      refine ih (hx'.status ▸ hw) fun x'' hx'' => ?_
      exact hn x'' (hx'.trans (hx'.status ▸ hx''))

/-- A program that stopped where it should completes its runner. -/
theorem yields_finish {Q : Except Error Unit × Held simCore → Sim × ManualHost → Prop}
    (hr : Started bps h.runner) (hs : Stopped bps h.runner.image.exit x)
    (hn : ∀ r x', r.state = .completed → Intact x x' (.stopped bps) →
      Q (.ok (), ⟨r, false⟩) (x', y)) :
    Yields ((finish (A := simCore)).run.run h) Q (x, y) := by
  refine wp_seq (wp_outcome (yields_collect hr hs fun r x' hcore hs' => ?_))
  refine wp_seq (wp_outcome (wp_get (wp_modify (wp_seq (wp_liftDialogue ?_)))))
  refine yields_writeEach r.saved (congrArg Status.failWrites hs') fun x'' hx'' => ?_
  refine hn _ x'' rfl ⟨?_, ?_, hx''.status.trans hs'⟩
  · exact hx''.memory.trans (congrArg Core.memory hcore)
  · exact hx''.endian.trans (congrArg Core.endian hcore)

/-- A wait for a program that, as the watch shows, stops where it should. -/
theorem yields_wait {patience timeout : Nat}
    {Q : Except Error Settled × Held simCore → Sim × ManualHost → Prop}
    (hr : Started bps h.runner)
    (hwatch : Yields (watch (A := simCore) (min (y.now.toNat + timeout) 0xffffffffffffffff)
        h.runner.pollInterval patience)
      (fun a w => a = .halted ∧ Stopped bps h.runner.image.exit w.1 ∧
        ∀ r x', r.state = .completed → Intact w.1 x' (.stopped bps) →
          Q (.ok .completed, ⟨r, false⟩) (x', w.2)) (x, y)) :
    Yields ((wait (A := simCore) patience timeout).run.run h) Q (x, y) := by
  refine wp_get ?_
  show Yields (StateT.run (ExceptT.run (if (!h.runner.state.isActive) = true then _ else _ :
    RunM simCore Settled)) _) _ _
  rw [hr.active]
  refine wp_played (wp_seq (wp_liftDialogue (wp_mono hwatch ?_)))
  rintro _ ⟨x', y'⟩ ⟨rfl, hs, hn⟩
  refine wp_seq (yields_finish hr hs fun r x'' hr' hx'' => ?_)
  exact hn r x'' hr' hx''

end Runner

end DebugLink
