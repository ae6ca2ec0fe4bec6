import DebugLink.Demo
import DebugLink.Proofs.Chip.Step
import DebugLink.Proofs.Runner.Steady

/-!
# Letting the loader go, and collecting it

What the host does on the chip before and after a transfer, for the image that runs the loader:

* `yields_start`: the registers hold what the loader is to be handed, and the core is let go at
  the entry.  What a look finds there is the loader at the start of its work.
* `yields_wait`: once the core has stopped at the exit point, the first register parameter holds
  the loader's status.  If it stopped anywhere else, or not at all, the wait does not complete.

Both leave memory alone.
-/

namespace DebugLink

open Environment

namespace Region

variable {r : Region} {a n k : Nat}

/-- The beginning of what was loaded. -/
theorem load?_take {bytes : Bytes n} (h : r.load? a n = some bytes) (hk : k ≤ n) :
    ∃ first, r.load? a k = some first ∧ first.val = bytes.val.take k := by
  have hc := covers_of_load? h
  obtain ⟨bytes', hload, hval⟩ := load?_eq hc
  obtain rfl : bytes' = bytes := Option.some.inj (hload.symm.trans h)
  have hc' : r.Covers a k := ⟨hc.1, Nat.le_trans (Nat.add_le_add_left hk a) hc.2⟩
  obtain ⟨first, hfirst, hfv⟩ := load?_eq hc'
  refine ⟨first, hfirst, ?_⟩
  rw [hfv, hval, ← List.map_take, List.take_range, Nat.min_eq_left hk]

end Region

namespace Chip

/-! ## Registers -/

/-- The chip with some registers set, one after the other. -/
def setRegs (x : Chip) (values : List (CortexM.Reg × Word)) : Chip :=
  ⟨x.store, { x.control with regs := values.foldl (fun f p => f.set p.1 p.2) x.control.regs }⟩

variable {η : Type} {h : Host η} {x : Chip} {y : η}

/-- The parameters that the loader is handed all go to the target. -/
theorem yields_writeRegs (params : List (RegParam 32 × CortexM.Reg))
    {Q : Except Error Unit → Chip × η → Prop} (hin : ∀ p ∈ params, p.1.direction.isInput = true)
    (hn : Q (.ok ()) (x.setRegs (params.map fun p => (p.2, p.1.value)), y)) :
    Yields h (Runner.writeRegs (A := cortexM) params).run Q (x, y) := by
  induction params generalizing x with
  | nil => exact hn
  | cons p rest ih =>
      have hp : p.1.direction.isInput = true := hin p (List.mem_cons_self ..)
      obtain ⟨p, reg⟩ := p
      rw [Runner.writeRegs, if_pos hp]
      exact wp_played (ih (fun q hq => hin q (List.mem_cons_of_mem _ hq)) hn)

/-- Registers are written, one after the other. -/
theorem yields_writeContext (context : List (CortexM.Reg × Word))
    {Q : Except Error Unit → Chip × η → Prop} (hn : Q (.ok ()) (x.setRegs context, y)) :
    Yields h (Runner.writeContext (A := cortexM) context).run Q (x, y) := by
  induction context generalizing x with
  | nil => exact hn
  | cons entry rest ih => exact wp_played (ih hn)

theorem yields_writeEach (saved : List (CortexM.Reg × Word))
    {Q : Except Error Unit → Chip × η → Prop} (hn : Q (.ok ()) (x.setRegs saved, y)) :
    Yields h (Runner.writeEach (A := cortexM) saved) Q (x, y) := by
  induction saved generalizing x with
  | nil => exact hn
  | cons entry rest ih => exact wp_played (ih hn)

/-- Saving registers changes nothing. -/
theorem yields_saveRegs (regs : List CortexM.Reg) (r : Held cortexM)
    {Q : Except Error Unit × Held cortexM → Chip × η → Prop}
    (hn : ∀ saved, Q (.ok (), { r with runner.saved := saved }) (x, y)) :
    Yields h ((Runner.saveRegs (A := cortexM) regs).run.run r) Q (x, y) := by
  induction regs generalizing r with
  | nil => exact hn r.runner.saved
  | cons reg rest ih =>
      refine wp_get ?_
      split
      · exact wp_played (ih _ hn)
      · exact ih r hn

/-- A halted chip is found halted. -/
theorem yields_requireHalted {Q : Except Error Unit → Chip × η → Prop}
    (hs : x.control.state = .halted) (hn : Q (.ok ()) (x, y)) :
    Yields h (Runner.requireHalted (A := cortexM)).run Q (x, y) := by
  have hsame : x.looked = x := looked_idle (by rw [hs]; decide)
  refine plays_ask play_poll ?_
  rw [hsame]
  show Yields h (ExceptT.run (if x.control.state ≠ .halted then _ else _ : Link cortexM Unit)) _ _
  rw [if_neg (not_not_intro hs)]
  exact hn

/-- A breakpoint is set besides others. -/
def armed (x : Chip) (a : Word) : Chip :=
  ⟨x.store, { x.control with breakpoints := x.control.breakpoints ++ [a] }⟩

/-- The chip sets the breakpoint, and the runner remembers it. -/
theorem yields_arm {r : Held cortexM} {Q : Except Error Unit × Held cortexM → Chip × η → Prop}
    (hexit : r.runner.image.exit ≠ 0)
    (hn : Q (.ok (), { r with runner.breakpoint := some r.runner.image.exit })
      (x.armed r.runner.image.exit, y)) :
    Yields h ((Runner.arm (A := cortexM)).run.run r) Q (x, y) := by
  refine wp_get ?_
  dsimp only
  rw [if_pos hexit]
  exact wp_played (wp_played hn)

/-- The core is let go as soon as the Thumb bit is set. -/
theorem play_resume {a : Option Word} {flags : ResumeFlags}
    (ht : x.control.regs.get .xpsr = CortexM.thumbBit) :
    play Chip.target h (.call (.resume a flags)) (x, y) =
      (.ok (), (⟨x.store, resume x.control a⟩, y)) := by
  have hne : ¬ x.control.regs.get .xpsr &&& CortexM.thumbBit = 0 := by
    rw [ht]
    decide
  simp only [play, Chip.target, perform]
  rw [if_neg hne]

/-- Nothing has changed but registers and breakpoints. -/
structure Alike (x x' : Chip) : Prop where
  store : x'.store = x.store
  state : x'.control.state = x.control.state

theorem Alike.trans {x x' x'' : Chip} (h : Alike x x') (h' : Alike x' x'') : Alike x x'' :=
  ⟨h'.store.trans h.store, h'.state.trans h.state⟩

/-- It removes one, and touches nothing else. -/
theorem play_removeBreakpoint (a : Word) (kind : CortexM.Breakpoint) : ∃ there x',
    play Chip.target h (.call (.removeBreakpoint a kind)) (x, y) = (.ok there, (x', y)) ∧
      Alike x x' ∧ x'.control.regs = x.control.regs := by
  simp only [play, Chip.target, perform]
  split
  · exact ⟨true, _, rfl, ⟨rfl, rfl⟩, rfl⟩
  · exact ⟨false, _, rfl, ⟨rfl, rfl⟩, rfl⟩

namespace Job

variable (j : Job)

/-- The image that runs the loader. -/
def image : Image 32 CortexM.Mode :=
  Demo.loaderImage j.code j.ring j.dest (j.data.length / 2)

/-- The registers that its parameters name. -/
def paramRegs : List CortexM.Reg :=
  [.gpr 0, .gpr 1, .gpr 2, .gpr 3, .gpr 4]

/-- The runner of that image. -/
def runner : Runner cortexM where
  image := j.image
  regs := paramRegs

/-- The exit point lies behind the code of the stub. -/
theorem toNat_exit : j.exit.toNat = j.code.toNat + 8 := by
  have hhigh := j.code_high
  have hstub : loaderStub.length = 12 := rfl
  have hend : ramBase + ramSize < 2 ^ 32 := by decide
  rw [exit, BitVec.toNat_add]
  exact Nat.mod_eq_of_lt (by show _ + 8 < 2 ^ 32; omega)

/-- Names that are all known resolve. -/
theorem resolve_eq {params : List (RegParam 32)} {regs : List CortexM.Reg}
    (hnames : params.map (CortexM.Reg.ofName? ·.name) = regs.map some) :
    Runner.resolve cortexM params = .ok regs := by
  induction params generalizing regs with
  | nil =>
      obtain rfl := List.map_eq_nil_iff.mp hnames.symm
      rfl
  | cons p rest ih =>
      cases regs with
      | nil => cases hnames
      | cons reg regs =>
          obtain ⟨hp, hrest⟩ := List.cons.inj hnames
          have hp : cortexM.reg? p.name = some reg := hp
          rw [Runner.resolve, hp, ih hrest]
          rfl

theorem resolve_image : Runner.resolve cortexM j.image.regs = .ok paramRegs :=
  resolve_eq (show ["r0", "r1", "r2", "r3", "r4"].map CortexM.Reg.ofName? = _ by decide)

/-- An image at an even address is accepted. -/
theorem accepted (heven : j.code.toNat % 2 = 0) :
    Runner.ofImage? (A := cortexM) j.image = .ok j.runner := by
  have hexit := j.toNat_exit
  have hcheck : cortexM.check j.image = .ok () := by
    have hmode : ¬ CortexM.Mode.thread = .handler := by decide
    have hentry : ¬ j.code.toNat % 2 ≠ 0 := by omega
    have hend : ¬ (j.code + loaderExit).toNat % 2 ≠ 0 := by
      rw [show (j.code + loaderExit).toNat = j.code.toNat + 8 from hexit]
      omega
    simp only [image, Demo.loaderImage, hmode, hentry, hend, ↓reduceIte]
  rw [Runner.ofImage?, resolve_image, hcheck]
  rfl

/-- It has no other runner. -/
theorem runner_unique {r : Runner cortexM} (h : Runner.ofImage? (A := cortexM) j.image = .ok r) :
    r = j.runner := by
  obtain ⟨regs, hregs, -, rfl⟩ := Runner.eq_of_ofImage? h
  obtain rfl := Except.ok.inj (hregs.symm.trans j.resolve_image)
  rfl

/-! ## The start -/

/-- The core is halted, and the loader's code lies where the image says. -/
structure Poised (j : Job) (x : Chip) : Prop where
  state : x.control.state = .halted
  laid : x.store.Laid
  flash : x.store.flash = j.before.flash
  stub : x.store.ram.load? j.code.toNat loaderStub.length = some ⟨loaderStub, rfl⟩

/-- Everything is in place for the loader. -/
def loaded (j : Job) (x : Chip) : Chip :=
  ((x.setRegs ((j.image.regs.zip paramRegs).map fun p => (p.2, p.1.value))).setRegs
    (cortexM.context .thread)).armed j.exit

/-- The core has been let go. -/
def launched (j : Job) (x : Chip) : Chip :=
  ⟨x.store, resume (j.loaded x).control (some j.code)⟩

/-- A runner whose loader is on the target. -/
structure Launched (j : Job) (r : Runner cortexM) : Prop where
  image : r.image = j.image
  regs : r.regs = paramRegs
  poll : r.pollInterval = 1
  active : r.state.isActive = true
  breakpoint : r.breakpoint = some j.exit

variable {j}

/-- What a look finds there is the loader at the start of its work. -/
theorem Poised.found_launched (hx : j.Poised x) : (j.launched x).found = some (j.loader 0) := by
  obtain ⟨code, hload, hcode⟩ := Region.load?_take hx.stub (show 8 ≤ loaderStub.length by decide)
  have hload : x.store.load? j.code.toNat 8 = some code := by
    rw [Store.load?, hload]
    rfl
  -- the stub begins with the trap, and asks for the loader
  have htrap : code.val.take 2 = trapCode := by
    rw [hcode]
    rfl
  have hservice : littleValue (code.val.drop 4) = loaderService := by
    rw [hcode]
    decide
  have hpc : (j.launched x).control.regs.get .pc = j.code := RegisterFile.get_set_self _ _ _
  have hcount : (j.launched x).control.regs.get (.gpr 1) =
      BitVec.ofNat 32 (j.data.length / 2) := rfl
  have hring : (j.launched x).control.regs.get (.gpr 2) = BitVec.ofNat 32 j.ring.wpAddr := rfl
  have hend : (j.launched x).control.regs.get (.gpr 3) =
      BitVec.ofNat 32 (j.ring.wpAddr + j.ring.size) := rfl
  have hdest : (j.launched x).control.regs.get (.gpr 4) = j.dest := rfl
  have htotal : BitVec.ofNat 32 (j.total - 0 / 2) = BitVec.ofNat 32 (j.data.length / 2) := by
    rw [Nat.zero_div, Nat.sub_zero, total, BitVec.ofNat_toNat, BitVec.setWidth_eq]
  show (trap x.store (j.launched x).control.regs).1 = _
  rw [trap, hpc]
  simp only [hload, htrap, hservice, hcount, hring, hend, hdest, ↓reduceIte, loader, htotal,
    BitVec.add_zero]
  rfl

theorem code_ne_exit (j : Job) : j.code ≠ j.exit := by
  have hexit := j.toNat_exit
  intro hsame
  rw [← hsame] at hexit
  omega

theorem exit_ne_zero (j : Job) : j.exit ≠ 0 := by
  have hexit := j.toNat_exit
  intro hzero
  rw [hzero] at hexit
  exact absurd hexit.symm (Nat.succ_ne_zero _)

/-- The core is let go with everything in place. -/
theorem yields_launch {Q : Except Error Unit × Held cortexM → Chip × η → Prop}
    (hn : ∀ saved, Q (.ok (), ⟨{ j.runner with saved, breakpoint := some j.exit }, false⟩)
      (j.launched x, y)) :
    Yields h ((Runner.launch (A := cortexM)).run.run ⟨j.runner, false⟩) Q (x, y) := by
  refine wp_seq (wp_modify (wp_get (wp_seq (yields_saveRegs _ _ fun saved => ?_))))
  -- there are no memory parameters to write
  show Yields h (((liftM (Runner.writeRegs (A := cortexM) (j.image.regs.zip paramRegs)) :
    RunM cortexM Unit) >>= fun _ => (liftM (Runner.writeContext (A := cortexM)
      (cortexM.context .thread)) : RunM cortexM Unit) >>= fun _ => Runner.arm).run.run _) _ _
  have hin : ∀ p ∈ j.image.regs.zip paramRegs, p.1.direction.isInput = true := by
    simp [image, Demo.loaderImage, paramRegs, Direction.isInput]
  refine wp_seq (wp_lift (yields_writeRegs _ hin ?_))
  refine wp_seq (wp_lift (yields_writeContext _ (yields_arm j.exit_ne_zero ?_)))
  have hthumb : (j.loaded x).control.regs.get .xpsr = CortexM.thumbBit := rfl
  refine wp_get (plays_note (plays_ask (play_resume hthumb) ?_))
  exact hn saved

/-- The loader is started. -/
theorem yields_start {Q : Except Error Unit × Held cortexM → Chip × η → Prop} (hx : j.Poised x)
    (hn : ∀ r, j.Launched r → Q (.ok (), ⟨r, true⟩) (j.launched x, y)) :
    Yields h ((Runner.start (A := cortexM)).run.run ⟨j.runner, false⟩) Q (x, y) := by
  refine wp_get ?_
  refine wp_seq (wp_lift (yields_requireHalted hx.state ?_))
  refine wp_seq (wp_outcome (yields_launch fun saved => ?_))
  exact hn _ ⟨rfl, rfl, rfl, rfl, rfl⟩

/-! ## The end -/

/-- The runner has brought the loader's status back. -/
structure Collected (status : Word) (r : Runner cortexM) : Prop where
  state : r.state = .completed
  status : r.image.regs.head?.map (·.value) = some status

/-- The exit breakpoint is removed. -/
theorem yields_disarm {r : Held cortexM} {a : Word}
    {Q : Except Error Unit × Held cortexM → Chip × η → Prop} (hb : r.runner.breakpoint = some a)
    (hn : ∀ x', Alike x x' → x'.control.regs = x.control.regs →
      Q (.ok (), { r with runner.breakpoint := none }) (x', y)) :
    Yields h ((Runner.disarm (A := cortexM)).run.run r) Q (x, y) := by
  refine wp_get ?_
  dsimp only
  rw [hb]
  refine wp_modify (wp_played ?_)
  obtain ⟨there, x', hplay, hx', hregs⟩ := play_removeBreakpoint (h := h) (x := x) (y := y) a
    r.runner.exitKind
  refine plays_ask hplay ?_
  cases there with
  | true => exact hn x' hx' hregs
  | false => exact plays_note (hn x' hx' hregs)

/-- The results are read back where the core stopped at the exit point. -/
theorem yields_gather {r : Held cortexM} {status : Word}
    {Q : Except Error Unit × Held cortexM → Chip × η → Prop} (hr : r.runner.image = j.image)
    (hregs : r.runner.regs = paramRegs) (hpc : x.control.regs.get .pc = j.exit)
    (hstatus : x.control.regs.get (.gpr 0) = status)
    (hn : ∀ r', r'.image.regs.head?.map (·.value) = some status →
      Q (.ok (), ⟨r', r.busy⟩) (x, y)) :
    Yields h ((Runner.gather (A := cortexM)).run.run r) Q (x, y) := by
  obtain ⟨⟨image, regs, saved, breakpoint, state, poll⟩, busy⟩ := r
  obtain rfl : image = j.image := hr
  obtain rfl : regs = paramRegs := hregs
  have hthere : ¬ (j.image.exit ≠ 0 ∧ x.control.regs.get .pc ≠ j.image.exit) :=
    fun hne => hne.2 hpc
  refine wp_get (wp_played ?_)
  show Yields h (ExceptT.run (if j.image.exit ≠ 0 ∧ x.control.regs.get .pc ≠ j.image.exit
    then _ else _ : RunM cortexM Unit) _) _ _
  rw [if_neg hthere]
  refine wp_played ?_
  subst hstatus
  exact hn _ rfl

/-- They are not if it stopped anywhere else. -/
theorem yields_gather_astray {r : Held cortexM}
    {Q : Except Error Unit × Held cortexM → Chip × η → Prop} (hr : r.runner.image = j.image)
    (hpc : x.control.regs.get .pc ≠ j.exit)
    (hn : ∀ e, Q (.error e, r) (x, y)) :
    Yields h ((Runner.gather (A := cortexM)).run.run r) Q (x, y) := by
  obtain ⟨⟨image, regs, saved, breakpoint, state, poll⟩, busy⟩ := r
  obtain rfl : image = j.image := hr
  refine wp_get (wp_played ?_)
  show Yields h (ExceptT.run (if j.image.exit ≠ 0 ∧ x.control.regs.get .pc ≠ j.image.exit
    then _ else _ : RunM cortexM Unit) _) _ _
  rw [if_pos ⟨j.exit_ne_zero, hpc⟩]
  exact plays_note (hn _)

/-- Putting registers back changes nothing else. -/
theorem yields_restoreContext (r : Held cortexM)
    {Q : Except Error Unit × Held cortexM → Chip × η → Prop}
    (hn : ∀ x', Alike x x' → Q (.ok (), { r with runner.saved := [] }) (x', y)) :
    Yields h ((Runner.restoreContext (A := cortexM)).run.run r) Q (x, y) := by
  refine wp_get (wp_modify (wp_seq (wp_liftDialogue (yields_writeEach _ ?_))))
  exact hn _ ⟨rfl, rfl⟩

/-- A loader that left completes its runner, whatever its status. -/
theorem yields_finish {r : Held cortexM} {status : Word} {bps : List Word}
    {Q : Except Error Unit × Held cortexM → Chip × η → Prop} (hr : j.Launched r.runner)
    (hx : j.Exited bps status x)
    (hn : ∀ r' x', Collected status r' → Alike x x' → Q (.ok (), ⟨r', false⟩) (x', y)) :
    Yields h ((Runner.finish (A := cortexM)).run.run r) Q (x, y) := by
  refine wp_seq (wp_outcome ?_)
  rw [Runner.collect_eq]
  refine wp_seq (yields_disarm hr.breakpoint fun x₁ hx₁ hregs => ?_)
  refine yields_gather hr.image hr.regs (by rw [hregs, hx.pc]) (by rw [hregs, hx.status])
    fun r' hstatus => ?_
  refine wp_seq (wp_outcome (yields_restoreContext _ fun x₂ hx₂ => ?_))
  exact hn _ x₂ ⟨rfl, hstatus⟩ (hx₁.trans hx₂)

/-- A core that stopped anywhere else does not. -/
theorem yields_finish_astray {r : Held cortexM}
    {Q : Except Error Unit × Held cortexM → Chip × η → Prop} (hr : j.Launched r.runner)
    (hpc : x.control.regs.get .pc ≠ j.exit) (hn : ∀ e r' x', Q (.error e, r') (x', y)) :
    Yields h ((Runner.finish (A := cortexM)).run.run r) Q (x, y) := by
  refine wp_seq (wp_outcome ?_)
  rw [Runner.collect_eq]
  refine wp_seq (yields_disarm hr.breakpoint fun x₁ hx₁ hregs => ?_)
  refine yields_gather_astray hr.image (by rw [hregs]; exact hpc) fun e => ?_
  refine wp_seq (wp_outcome (yields_restoreContext _ fun x₂ hx₂ => ?_))
  exact hn e _ x₂

/-- How a watch may end: the loader has left with a status, in which case the runner completes;
    or the wait does not complete at all. -/
def Watched (j : Job) (bps : List Word)
    (Q : Except Error Runner.Settled × Held cortexM → Chip × η → Prop)
    (a : Runner.Watch) (v : Chip × η) : Prop :=
  (∃ status, a = .halted ∧ j.Exited bps status v.1 ∧ ∀ r' x', Collected status r' →
    Alike v.1 x' → Q (.ok .completed, ⟨r', false⟩) (x', v.2)) ∨
  (a = .halted → v.1.control.regs.get .pc ≠ j.exit) ∧
    ∀ res r' x', res ≠ .ok .completed → Q (res, r') (x', v.2)

/-- The wait, from what the watch shows. -/
theorem yields_wait (bps : List Word) {r : Held cortexM} {patience timeout : Nat}
    {Q : Except Error Runner.Settled × Held cortexM → Chip × η → Prop} (hr : j.Launched r.runner)
    (hwatch : Yields h (Runner.watch (A := cortexM)
      (min ((h.perform .now y).1.toNat + timeout) 0xffffffffffffffff) 1 patience)
      (j.Watched bps Q) (x, (h.perform .now y).2)) :
    Yields h ((Runner.wait (A := cortexM) patience timeout).run.run r) Q (x, y) := by
  refine wp_get ?_
  show Yields h (StateT.run (ExceptT.run (if (!r.runner.state.isActive) = true then _ else _ :
    RunM cortexM Runner.Settled)) _) _ _
  rw [hr.active]
  refine wp_played (wp_seq (wp_liftDialogue ?_))
  rw [hr.poll]
  refine wp_mono hwatch ?_
  rintro a ⟨x', y'⟩ (⟨status, rfl, hx', hn⟩ | ⟨hpc, hn⟩)
  · exact wp_seq (yields_finish hr hx' fun r' x'' hr' hx'' => hn r' x'' hr' hx'')
  · cases a with
    | halted => exact wp_seq (yields_finish_astray hr (hpc rfl) fun e r' x'' => hn _ r' x'' nofun)
    | expired => exact plays_note (wp_modify (hn _ _ x' nofun))
    | shutdown => exact hn _ r x' nofun
    | failed e => exact hn _ r x' nofun
    | undecided => exact hn _ r x' nofun

end Job

end Chip

end DebugLink
