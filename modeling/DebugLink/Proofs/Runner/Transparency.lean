import DebugLink.Proofs.Runner.Machine
import DebugLink.Proofs.Runner.OneAtATime

/-!
# Runs leave no trace in the registers

Whatever an algorithm does to the registers, a run that completes, and one that is given up on a
halted target, leaves all registers that it touched as they were BEFORE the start.

* `Held.Covered` is the invariant: while a runner is active, its saved registers are those it
  touches, with the values that the poll before the resume found.
* `wp_start` establishes it, `Task.wp_perform_machine` keeps it, `wp_finish` and `wp_abandon`
  use it up.
* `Lifetime` is every runner that an accepted image can become, on a machine that does as it
  likes; `Lifetime.transparent` is the theorem.
-/

namespace DebugLink

open Environment Dialogue Machine

variable {A : Arch} {α : Type}

/-! ## What a runner was made from -/

/-- Any operation. -/
abbrev Op.Whatever : Op A → Prop := fun _ => True

namespace Runner

/-- What leaves the runner where it stands leaves what it was made from. -/
theorem origin_of_steady {x : RunM A α} (hx : Confined Op.Steady Held.standing x) :
    Confined Op.Whatever Held.origin x :=
  (hx.weaken fun _ _ => trivial).through fun h => (h.runner.image, h.runner.regs)

theorem requireHalted_restful : (requireHalted (A := A)).run.Only Op.Restful :=
  requireHalted_glance.kind.weaken fun _ h => h.sparing.restful

/-- A start does, ... -/
theorem start_origin : Confined Op.Whatever Held.origin (start (A := A)) := by
  have hrequire : (requireHalted (A := A)).run.Only Op.Whatever :=
    requireHalted_restful.weaken fun _ _ => trivial
  have hlaunch : Confined Op.Whatever Held.origin (launch (A := A)) :=
    .bind (origin_of_steady load_steady) fun _ => .bind .get fun _ =>
      .bind (.note trivial) fun _ => .call trivial
  refine .bind .get fun h => ?_
  dsimp only
  split
  · exact .bind (.note trivial) fun _ => .throw_bind _ _
  · split
    · exact .throw_bind _ _
    · refine .bind (.lift hrequire) fun _ => .bind (.outcome hlaunch) ?_
      rintro (e | _)
      · exact .bind (.outcome (origin_of_steady disarm_steady)) fun _ =>
          .bind (.outcome (origin_of_steady restoreContext_steady)) fun _ => .throw _
      · exact .modify fun _ => rfl

/-- ... and a wait, ... -/
theorem wait_origin (patience timeout : Nat) :
    Confined Op.Whatever Held.origin (wait (A := A) patience timeout) :=
  fun h => ((wait_within h patience timeout).weaken fun _ _ => trivial).mono fun _ hf => hf.origin

end Runner

/-- ... and the beginning of a transfer. -/
theorem Engine.begin_origin (e : Engine) (flow : Flow) :
    Confined Op.Whatever Held.origin (e.begin (A := A) flow) := by
  have hput : ∀ place value, (putPointer (A := A) place value).run.Only Op.Whatever :=
    fun place value => (putPointer_steady place value).weaken fun _ _ => trivial
  have hrequire : (Runner.requireHalted (A := A)).run.Only Op.Whatever :=
    Runner.requireHalted_restful.weaken fun _ _ => trivial
  refine .bind .get fun h => ?_
  split
  · exact .bind (.note trivial) fun _ => .throw_bind _ _
  · refine .bind (.lift hrequire) fun _ => .bind (.lift (hput _ _)) fun _ =>
      .bind (.lift (hput _ _)) fun _ => .bind (.outcome Runner.start_origin) ?_
    rintro (err | _)
    · exact .bind (.note trivial) fun _ => .throw _
    · exact .pure _

/-- A task runs what the runner was made from. -/
theorem Task.perform_origin (h : Held A) (task : Task) :
    (task.perform.run h).Within Op.Whatever fun r => r.2.origin = h.origin := by
  -- which operations are asked for plays no part here
  have hrestful : ∀ op : Op A, op.Restful → op.Whatever := fun _ _ => trivial
  have hsteady : ∀ op : Op A, op.Steady → op.Whatever := fun _ _ => trivial
  cases task with
  | start => exact Within.bind (Runner.start_origin h)
  | wait patience timeout => exact Within.bind (Runner.wait_origin patience timeout h)
  | run patience =>
      exact Within.bind ((Confined.bind Runner.start_origin fun _ => .bind .get fun _ =>
        Runner.wait_origin _ _) h)
  | abandon =>
      exact Within.bind (((Runner.abandon_within h).weaken hrestful).mono fun _ hf => hf.origin)
  | write e patience data =>
      refine Within.bind (Within.bind ((e.begin_origin .write h).mono ?_))
      rintro ⟨err | _, h'⟩ ho
      · exact ho
      · refine Within.bind (Within.bind (((Engine.feedAll_steady data {}).weaken hsteady).mono ?_))
        rintro ⟨moved, progress⟩ _
        refine ((Engine.conclude_within h' .write patience _ _ _ _).weaken hrestful).mono ?_
        exact fun _ hf => hf.origin.trans ho
  | read e patience buffer =>
      refine Within.bind ?_
      rw [Engine.read]
      split
      · rfl
      · refine Within.bind ((e.begin_origin .read h).mono ?_)
        rintro ⟨err | _, h'⟩ ho
        · exact ho
        · refine Within.bind (Within.bind
            (((Engine.drainAll_steady _ {}).weaken hsteady).mono ?_))
          rintro ⟨moved, progress⟩ _
          refine Within.bind
            (((Engine.conclude_within h' .read patience _ _ _ _).weaken hrestful).mono ?_)
          exact fun _ hf => hf.origin.trans ho

/-! ## Starting -/

/-- While a runner is active, it has saved all registers that it touches, with what they held
    when the start found the core halted. -/
def Held.Covered (h : Held A) (m : Machine A) : Prop :=
  h.runner.state.isActive = true →
    ∃ before, m.launched = some before ∧ Saves h.runner.saved h.runner.touched before.regs

namespace Held.Covered

variable {h h' : Held A} {m m' : Machine A}

/-- Where nothing is on the target, nothing is promised. -/
theorem of_inactive (hs : h.runner.state.isActive = false) : h.Covered m :=
  fun hactive => absurd hactive (by rw [hs]; exact nofun)

/-- The promise depends on what was launched. -/
theorem of_launched (hc : h.Covered m) (hl : m'.launched = m.launched) : h.Covered m' := by
  intro hactive
  rw [hl]
  exact hc hactive

/-- What starts nothing keeps it. -/
theorem follows (hc : h.Covered m) (hf : h.Follows h') (hl : m'.launched = m.launched) :
    h'.Covered m' := by
  intro hactive
  obtain ⟨hactive, hsaved⟩ := hf.saved hactive
  obtain ⟨before, hb, hs⟩ := hc hactive
  have htouched : h'.runner.touched = h.runner.touched :=
    congrArg (fun o : A.Img × List A.Reg => A.pc :: o.2 ++ (A.context o.1.info).map (·.1)) hf.origin
  refine ⟨before, hl.trans hb, ?_⟩
  rw [hsaved, htouched]
  exact hs

theorem lasts (h : Held A) : (machine A).Lasts (fun _ => True) h.Covered :=
  ⟨fun hm hc => hc.of_launched hm.2.2, fun _ => trivial⟩

end Held.Covered

namespace Runner

variable {m : Machine A} {h : Held A}

/-- A poll that finds the core halted tells what the registers hold. -/
theorem wp_requireHalted_machine (m : Machine A) :
    (requireHalted (A := A)).run.Ensures (fun r m' => m'.launched = m.launched ∧
      (r = .ok () → m'.halted = true ∧ m'.found = some m'.toSnapshot ∧
        (m.halted = true → m'.regs = m.regs))) m := by
  have hP : (machine A).Lasts (fun _ => True) fun w : Machine A =>
      w.launched = m.launched ∧ (m.halted = true → w = m) := by
    refine ⟨?_, fun _ => trivial⟩
    rintro w w' ⟨hw, -, hl⟩ ⟨hlw, hstill⟩
    refine ⟨hl.trans hlw, fun hm => ?_⟩
    obtain rfl := hstill hm
    exact absurd hm (by rw [hw]; exact nofun)
  refine wp_andThen (wp_ask hP ⟨rfl, fun _ => rfl⟩ ?_)
  rintro w (e | state) w' ⟨hl, hstill⟩ ha
  · obtain rfl := ha
    exact ⟨hl, nofun⟩
  · show (machine A).wp _ (ExceptT.run (if state ≠ .halted then _ else _)) _ _
    split
    · next hs =>
      have hw : w'.launched = w.launched :=
        launched_of_answers (show Op.Restful (.call .poll : Op A) from trivial) ha
      have hfails : (do note .notHalted; throw .notHalted : Link A Unit).run.Within Op.Restful
          fun r => r = .error .notHalted := ⟨trivial, fun _ => rfl⟩
      refine wp_mono (wp_restful hfails w') ?_
      rintro r m' ⟨rfl, hl'⟩
      exact ⟨hl'.trans (hw.trans hl), nofun⟩
    · next hs =>
      obtain rfl : state = .halted := Decidable.of_not_not hs
      obtain ⟨hw, rfl⟩ := ha
      refine ⟨hl, fun _ => ⟨hw, rfl, fun hm => ?_⟩⟩
      rw [hstill hm]

/-- Everything is put in place; the registers that are touched are saved first. -/
theorem wp_load (hm : m.halted = true) (h : Held A) :
    ((load (A := A)).run.run h).Ensures (fun r m' => (r.2.standing = h.standing ∧
      m'.status = m.status) ∧
      (r.1 = .ok () → Saves r.2.runner.saved h.runner.touched m.regs)) m := by
  refine wp_and (wp_steady (load_steady h) hm) ?_
  refine wp_modify (wp_get (wp_seq (wp_mono (wp_saveRegs hm _ _ nofun) ?_)))
  rintro ⟨_, h₁⟩ m ⟨rfl, rfl, hs⟩
  -- nothing that comes after touches what was saved
  have hrest : ∀ (mem : List (MemParam A.width)) (regs : List (RegParam A.width × A.Reg))
      (context : List (A.Reg × A.Addr)), Confined Op.Steady (fun h : Held A => h.runner.saved) (do
        writeMem mem
        writeRegs regs
        writeContext context
        arm) := fun mem regs context =>
    .bind (.lift (writeMem_steady mem)) fun _ => .bind (.lift (writeRegs_steady regs)) fun _ =>
      .bind (.lift (writeContext_steady context)) fun _ => (arm_confined fun _ _ => rfl).kind
  refine wp_mono (wp_steady (hrest _ _ _ h₁) hm) ?_
  rintro r m' ⟨hsaved, -⟩ _
  rw [show r.2.runner.saved = h₁.runner.saved from hsaved]
  exact hs

/-- The core is let go only after the registers were saved. -/
theorem wp_launch_machine {before : Snapshot A} (hm : m.halted = true)
    (hf : m.found = some before) (h : Held A) :
    ((launch (A := A)).run.run h).Ensures (fun r m' => r.2.standing = h.standing ∧
      (r.1 = .ok () → m'.launched = some before ∧
        Saves r.2.runner.saved h.runner.touched m.regs)) m := by
  refine wp_seq (wp_mono (wp_load hm h) ?_)
  rintro ⟨e | _, h'⟩ m' ⟨⟨hstanding, hstatus⟩, hs⟩
  · exact ⟨hstanding, nofun⟩
  · have hm' : m'.halted = true := (congrArg (·.1) hstatus).trans hm
    have hf' : m'.found = some before := (congrArg (·.2.1) hstatus).trans hf
    refine wp_get (wp_still hm' ?_)
    rintro _ m' rfl
    refine wp_still hm' ?_
    rintro (e | _) _ rfl
    · exact ⟨hstanding, nofun⟩
    · exact ⟨hstanding, fun _ => ⟨hf', hs rfl⟩⟩

/-- A start that succeeds has saved what the registers held before it. -/
theorem wp_start_machine (hc : h.Covered m) :
    ((start (A := A)).run.run h).Ensures (fun r m' => r.2.Covered m' ∧
      (r.1 = .ok () → ∃ before, m'.launched = some before ∧
        (m.halted = true → before.regs = m.regs))) m := by
  refine wp_get ?_
  dsimp only
  split
  · refine wp_ask (Held.Covered.lasts h) hc ?_
    rintro w _ _ hw rfl
    exact ⟨hw, nofun⟩
  · split
    · exact ⟨hc, nofun⟩
    · next hidle =>
      have hidle : h.runner.state.isActive = false := by simpa using hidle
      refine wp_seq (wp_lift (wp_mono (wp_requireHalted_machine m) ?_))
      rintro (e | _) m₁ ⟨-, hfound⟩
      · exact ⟨.of_inactive hidle, nofun⟩
      · obtain ⟨hm₁, hf₁, hstill⟩ := hfound rfl
        refine wp_seq (wp_outcome (wp_mono (wp_launch_machine hm₁ hf₁ h) ?_))
        rintro ⟨e | _, h'⟩ m₂ ⟨hs, hl⟩
        · -- a start that fails leaves a runner that is not active
          refine wp_seq (wp_outcome (wp_mono (wp_restful
            (disarm_steady.weaken (fun _ => Op.Steady.restful) h') m₂) ?_))
          rintro ⟨_, h₁⟩ m₃ ⟨hs₁, -⟩
          refine wp_seq (wp_outcome (wp_mono (wp_restful
            (restoreContext_steady.weaken (fun _ => Op.Steady.restful) h₁) m₃) ?_))
          rintro ⟨_, h₂⟩ m₄ ⟨hs₂, -⟩
          have hstate : h₂.runner.state = h.runner.state :=
            congrArg (·.runner.state) (hs₂.trans (hs₁.trans hs))
          exact ⟨.of_inactive (hstate ▸ hidle), nofun⟩
        · obtain ⟨hl, hsaves⟩ := hl rfl
          have htouched : h'.runner.touched = h.runner.touched :=
            congrArg (fun h => h.runner.touched) hs
          refine ⟨fun _ => ⟨m₁.toSnapshot, hl, ?_⟩, fun _ => ⟨m₁.toSnapshot, hl, hstill⟩⟩
          show Saves h'.runner.saved h'.runner.touched m₁.regs
          rw [htouched]
          exact hsaves

/-! ## Coming to an end -/

/-- Watching ends with a halted core, if it says so. -/
theorem wp_watch (deadline interval patience : Nat) (m : Machine A) :
    (watch (A := A) deadline interval patience).Ensures (fun r m' => r = .halted →
      m'.halted = true ∧ m'.found = some m'.toSnapshot) m := by
  have hP : (machine A).Lasts (fun _ => True) fun _ : Machine A => True :=
    ⟨fun _ _ => trivial, fun _ => trivial⟩
  induction patience generalizing m with
  | zero => exact nofun
  | succ patience ih =>
      refine wp_ask hP trivial ?_
      rintro w (e | state) w' - ha
      · exact nofun
      · cases state with
        | halted =>
            obtain ⟨hw, rfl⟩ := ha
            exact fun _ => ⟨hw, rfl⟩
        | _ =>
            refine wp_ask hP trivial ?_
            rintro w now w' - -
            show (machine A).wp _ (if deadline ≤ UInt64.toNat now then _ else _) _ _
            split
            · exact nofun
            · refine wp_ask hP trivial ?_
              rintro w _ w' - -
              refine wp_ask hP trivial ?_
              rintro w _ w' - -
              refine wp_ask hP trivial ?_
              rintro w (_ | _) w' - -
              · exact ih w'
              · exact nofun

end Runner

/-- An image with what is read back. -/
def Image.readBack (found : Snapshot A) (image : A.Img) : A.Img :=
  { image with
    mem := image.mem.map (MemParam.readBack found.memory)
    regs := image.regs.map (RegParam.readBack found.regs) }

/-- What is read back does not depend on what was read back before. -/
theorem Image.readBack_blank (found : Snapshot A) (image : A.Img) :
    image.blank.readBack found = image.readBack found := by
  have hmem : ∀ p : MemParam A.width, p.blank.readBack found.memory = p.readBack found.memory := by
    intro p
    cases hp : p.direction.isOutput <;> simp [MemParam.blank, MemParam.readBack, hp]
  have hreg : ∀ p : RegParam A.width, p.blank.readBack found.regs = p.readBack found.regs := by
    intro p
    cases hp : p.direction.isOutput <;> simp [RegParam.blank, RegParam.readBack, hp]
  simp only [Image.readBack, Image.blank, List.map_map]
  congr 1
  · exact List.map_congr_left fun p _ => hmem p
  · exact List.map_congr_left fun p _ => hreg p

/-- The registers that a run of the image touches. -/
def Image.Touches (image : A.Img) (reg : A.Reg) : Prop :=
  reg = A.pc ∨ (∃ p ∈ image.regs, A.reg? p.name = some reg) ∨
    reg ∈ (A.context image.info).map (·.1)

/-- The runner was made from the image. -/
structure Runner.Runs (r : Runner A) (image : A.Img) : Prop where
  blank : r.image.blank = image.blank
  resolved : Runner.resolve A image.regs = .ok r.regs

/-- How a run of `image` ends that completes, on a core that it was found halted with `found`:
    the registers are as they were `before`, and the parameters are as they were found. -/
structure Runner.Completes (r : Runner A) (image : A.Img) (before found : Snapshot A)
    (m : Machine A) : Prop where
  state : r.state = .completed
  exit : image.exit = 0 ∨ found.regs A.pc = image.exit
  collected : r.image = image.readBack found
  found : m.found = some found
  halted : m.halted = true
  restored : ∀ reg, image.Touches reg → m.regs reg = before.regs reg

namespace Runner

variable {m : Machine A} {h : Held A} {image : A.Img}

/-- Names resolve to the same registers whatever was read back. -/
theorem resolve_blank (params : List (RegParam A.width)) :
    resolve A (params.map RegParam.blank) = resolve A params := by
  induction params with
  | nil => rfl
  | cons p rest ih =>
      have hname : p.blank.name = p.name := by
        rw [RegParam.blank]
        split <;> rfl
      rw [List.map_cons, resolve, resolve, hname, ih]

/-- A parameter that was resolved has its register in the list. -/
theorem mem_of_resolve {params : List (RegParam A.width)} {regs : List A.Reg} {reg : A.Reg}
    (hr : resolve A params = .ok regs) (h : ∃ p ∈ params, A.reg? p.name = some reg) :
    reg ∈ regs := by
  induction params generalizing regs with
  | nil =>
      obtain ⟨p, hp, -⟩ := h
      exact absurd hp List.not_mem_nil
  | cons p rest ih =>
      obtain ⟨reg', regs', hreg', hregs', rfl⟩ := resolve_cons hr
      obtain ⟨q, hq, hname⟩ := h
      rcases List.mem_cons.mp hq with rfl | hq
      · obtain rfl : reg' = reg := Option.some.inj (hreg'.symm.trans hname)
        exact List.mem_cons_self
      · exact List.mem_cons_of_mem _ (ih hregs' ⟨q, hq, hname⟩)

namespace Runs

variable {r r' : Runner A}

/-- A runner keeps the registers of its image. -/
theorem resolve_regs (hr : r.Runs image) : resolve A r.image.regs = .ok r.regs := by
  rw [← resolve_blank, show r.image.regs.map RegParam.blank = r.image.blank.regs from rfl,
    hr.blank, ← hr.resolved]
  exact resolve_blank image.regs

/-- It runs the same image as long as it is made from the same. -/
theorem of_origin {h h' : Held A} (hr : h.runner.Runs image) (ho : h'.origin = h.origin) :
    h'.runner.Runs image := by
  obtain ⟨hblank, hregs⟩ := Prod.mk.inj ho
  exact ⟨hblank.trans hr.blank, hr.resolved.trans (congrArg _ hregs.symm)⟩

/-- A runner touches the registers that the image says. -/
theorem mem_touched (hr : r.Runs image) {reg : A.Reg} (h : image.Touches reg) :
    reg ∈ r.touched := by
  have hinfo : r.image.info = image.info := congrArg (·.info) hr.blank
  rw [touched, hinfo]
  rcases h with rfl | h | h
  · exact List.mem_append_left _ List.mem_cons_self
  · exact List.mem_append_left _ (List.mem_cons_of_mem _ (mem_of_resolve hr.resolved h))
  · exact List.mem_append_right _ h

/-- What is read back depends on the parameters of the image. -/
theorem readBack (hr : r.Runs image) (found : Snapshot A) :
    r.image.readBack found = image.readBack found := by
  rw [← Image.readBack_blank found r.image, hr.blank, Image.readBack_blank]

end Runs

/-- Once the core has halted: what is found is collected, and what was saved is put back. -/
theorem wp_finish {before : Snapshot A} (hm : m.halted = true)
    (hf : m.found = some m.toSnapshot) (hr : h.runner.Runs image)
    (hs : Saves h.runner.saved h.runner.touched before.regs) :
    ((finish (A := A)).run.run h).Ensures (fun r m' => r.1 = .ok () →
      r.2.runner.Completes image before m.toSnapshot m') m := by
  refine wp_seq (wp_outcome (wp_mono (wp_collect hm hr.resolve_regs) ?_))
  rintro ⟨collected, h₁⟩ m ⟨rfl, hsaved, hok⟩
  have hs₁ : Saves h₁.runner.saved h.runner.touched before.regs := by
    rw [hsaved]
    exact hs
  refine wp_seq (wp_outcome (wp_mono (wp_restoreContext hm hs₁) ?_))
  rintro ⟨_, _⟩ m' ⟨rfl, rfl, hstatus, hregs⟩
  cases collected with
  | error e => exact nofun
  | ok _ =>
      obtain ⟨hexit, himage⟩ := hok rfl
      have hexits : h.runner.image.exit = image.exit := congrArg (·.exit) hr.blank
      refine fun _ => ⟨rfl, ?_, ?_, ?_, ?_, fun reg hreg => hregs reg (hr.mem_touched hreg)⟩
      · rw [← hexits]
        exact hexit
      · exact himage.trans (hr.readBack _)
      · exact (congrArg (·.2.1) hstatus).trans hf
      · exact (congrArg (·.1) hstatus).trans hm

/-- A wait that succeeds has put everything back. -/
theorem wp_wait_machine (hr : h.runner.Runs image) (hc : h.Covered m) (patience timeout : Nat) :
    ((wait (A := A) patience timeout).run.run h).Ensures (fun r m' => r.1 = .ok .completed →
      ∃ before found, m.launched = some before ∧ r.2.runner.Completes image before found m') m := by
  have hP : (machine A).Lasts (fun _ => True) fun _ : Machine A => True :=
    ⟨fun _ _ => trivial, fun _ => trivial⟩
  show (machine A).wp _
    ((if (!h.runner.state.isActive) = true then _ else _ : RunM A Settled).run.run h) _ _
  split
  · exact nofun
  · next hactive =>
    obtain ⟨before, hb, hs⟩ := hc (by simpa using hactive)
    refine wp_ask hP trivial ?_
    rintro w now w' - -
    refine wp_seq (wp_liftDialogue (wp_mono (wp_watch _ _ _ w') ?_))
    rintro watched m' hwatched
    cases watched with
    | halted =>
        obtain ⟨hm', hf'⟩ := hwatched rfl
        refine wp_seq (wp_mono (wp_finish hm' hf' hr hs) ?_)
        rintro ⟨e | _, h'⟩ m'' hfinish
        · exact nofun
        · exact fun _ => ⟨before, m'.toSnapshot, hb, hfinish rfl⟩
    | expired =>
        refine wp_ask hP trivial ?_
        rintro w _ w' - -
        exact nofun
    | _ => exact nofun

/-- So has a run, which is a start and a wait. -/
theorem wp_run_machine (hr : h.runner.Runs image) (hc : h.Covered m) (patience : Nat) :
    ((run (A := A) patience).run.run h).Ensures (fun r m' => r.1 = .ok .completed →
      ∃ before found, (m.halted = true → before.regs = m.regs) ∧
        r.2.runner.Completes image before found m') m := by
  refine wp_seq (wp_mono (wp_and (wp_start_machine hc)
    (wp_of_within (start_origin h) m)) ?_)
  rintro ⟨e | _, h'⟩ m' ⟨⟨hc', hstart⟩, ho⟩
  · exact nofun
  · obtain ⟨before, hb, hregs⟩ := hstart rfl
    refine wp_get (wp_mono (wp_wait_machine (hr.of_origin ho) hc' _ _) ?_)
    intro r m'' hwait hok
    obtain ⟨before', found, hb', hcompletes⟩ := hwait hok
    obtain rfl : before = before' := Option.some.inj (hb.symm.trans hb')
    exact ⟨before, found, hregs, hcompletes⟩

/-- Giving up on a halted target has put everything back. -/
theorem wp_abandon_machine {before : Snapshot A} (hr : h.runner.Runs image)
    (hs : Saves h.runner.saved h.runner.touched before.regs)
    (hactive : h.runner.state.isActive = true) (m : Machine A) :
    ((abandon (A := A)).run.run h).Ensures (fun _ m' => m'.found.isSome = true →
      m'.halted = true ∧ ∀ reg, image.Touches reg → m'.regs reg = before.regs reg) m := by
  have hP : (machine A).Lasts (fun _ => True) fun _ : Machine A => True :=
    ⟨fun _ _ => trivial, fun _ => trivial⟩
  have hrestful : ∀ op : Op A, op.Steady → op.Restful := fun _ => Op.Steady.restful
  have hhalt : Confined Op.Restful Held.runner (call .halt : RunM A Unit) := .call trivial
  have hdisarm : Confined Op.Restful (fun h : Held A => h.runner.saved) disarm :=
    (disarm_confined fun _ _ => rfl).weaken hrestful
  have hlast : ∀ {Q : Machine A → Prop} (h' : Held A) (r : Except Error Unit) (m' : Machine A),
      Q m' → Ensures ((do
        modify fun h => { runner := { h.runner with state := .aborted }, busy := false }
        MonadExcept.ofExcept r : RunM A Unit).run.run h') (fun _ m' => Q m') m' := by
    intro Q h' r m' hq
    cases r <;> exact hq
  show (machine A).wp _
    ((if (!h.runner.state.isActive) = true then _ else _ : RunM A Unit).run.run h) _ _
  rw [hactive]
  refine wp_ask hP trivial ?_
  rintro w _ m₁ - -
  refine wp_seq (wp_outcome (wp_mono (wp_restful (hhalt h) m₁) ?_))
  rintro ⟨halted, h₁⟩ m₂ ⟨hrun, -⟩
  refine wp_seq (wp_outcome (wp_mono (wp_restful (hdisarm h₁) m₂) ?_))
  rintro ⟨disarmed, h₂⟩ m₃ ⟨hsaved, -⟩
  -- neither the halt nor the removal has touched what was saved
  have hs₂ : Saves h₂.runner.saved h.runner.touched before.regs := by
    rw [show h₂.runner.saved = h₁.runner.saved from hsaved, show h₁.runner = h.runner from hrun]
    exact hs
  refine wp_ask hP trivial ?_
  rintro w (e | state) m₄ - ha
  · obtain rfl := ha
    exact hlast _ _ _ nofun
  · cases state with
    | halted =>
        -- the machine answered that it is halted, so it stays so while registers are put back
        obtain ⟨hw, rfl⟩ := ha
        refine wp_seq (wp_outcome (wp_mono (wp_restoreContext hw hs₂) ?_))
        rintro ⟨restored, h₃⟩ m₅ ⟨-, -, hstatus, hregs⟩
        refine hlast _ _ _ fun _ => ⟨(congrArg (·.1) hstatus).trans hw, fun reg hreg => ?_⟩
        exact hregs reg (hr.mem_touched hreg)
    | _ =>
        obtain rfl := ha
        exact hlast _ _ _ nofun

end Runner

/-! ## All tasks -/

/-- The beginning of a transfer writes pointers, and starts the runner. -/
theorem Engine.wp_begin_machine {h : Held A} {m : Machine A} (hc : h.Covered m) (e : Engine)
    (flow : Flow) :
    ((e.begin flow).run.run h).Ensures (fun r m' => r.2.Covered m') m := by
  have hput : ∀ place value, (putPointer (A := A) place value).run.Only Op.Restful :=
    fun place value => (putPointer_steady place value).weaken fun _ => Op.Steady.restful
  refine wp_get ?_
  split
  · refine wp_ask (Held.Covered.lasts h) hc ?_
    rintro w _ _ hw rfl
    exact hw
  · refine wp_seq (wp_lift (wp_mono (wp_restful Runner.requireHalted_restful m) ?_))
    rintro (err | _) m₁ ⟨-, hl₁⟩
    · exact hc.of_launched hl₁
    · refine wp_seq (wp_lift (wp_mono (wp_restful (hput _ _) m₁) ?_))
      rintro (err | _) m₂ ⟨-, hl₂⟩
      · exact hc.of_launched (hl₂.trans hl₁)
      · refine wp_seq (wp_lift (wp_mono (wp_restful (hput _ _) m₂) ?_))
        rintro (err | _) m₃ ⟨-, hl₃⟩
        · exact hc.of_launched (hl₃.trans (hl₂.trans hl₁))
        · -- two words were written, and nothing was launched meanwhile
          have hc₃ : h.Covered m₃ := hc.of_launched (hl₃.trans (hl₂.trans hl₁))
          refine wp_seq (wp_outcome (wp_mono (Runner.wp_start_machine hc₃) ?_))
          rintro ⟨err | _, h'⟩ m₄ ⟨hc₄, -⟩
          · refine wp_ask (Held.Covered.lasts h') hc₄ ?_
            rintro w _ _ hw rfl
            exact hw
          · exact hc₄

/-- An active runner cannot be started. -/
theorem Runner.start_refused {h : Held A} (hactive : h.runner.state.isActive = true) :
    ((Runner.start (A := A)).run.run h).Within Op.Restful
      fun r => r = (.error .alreadyRunning, h) := by
  obtain ⟨runner, busy⟩ := h
  cases busy with
  | true => exact ⟨trivial, fun _ => rfl⟩
  | false =>
      show Within _ (ExceptT.run (if runner.state.isActive = true then _ else _ : RunM A Unit)
        ⟨runner, false⟩) _
      rw [if_pos hactive]
      rfl

/-- It is refused while the runner is active. -/
theorem Engine.begin_refused {h : Held A} (hactive : h.runner.state.isActive = true) (e : Engine)
    (flow : Flow) :
    ((e.begin (A := A) flow).run.run h).Within Op.Restful fun r => ∃ err, r = (.error err, h) := by
  -- up to the start the runner is left alone
  have hlift : ∀ {β : Type} {x : Link A β}, x.run.Only Op.Restful →
      ((liftM x : RunM A β).run.run h).Within Op.Restful fun r => r.2 = h :=
    fun {β x} hx => (Confined.lift hx : Confined Op.Restful id (liftM x : RunM A β)) h
  have hput : ∀ place value, (putPointer (A := A) place value).run.Only Op.Restful :=
    fun place value => (putPointer_steady place value).weaken fun _ => Op.Steady.restful
  show Within _ ((if h.busy = true then _ else _ : RunM A Unit).run.run h) _
  split
  · exact ⟨trivial, fun _ => ⟨_, rfl⟩⟩
  · refine .seq ((hlift Runner.requireHalted_restful).mono ?_)
    rintro ⟨err | _, _⟩ rfl
    · exact ⟨err, rfl⟩
    · refine .seq ((hlift (hput _ _)).mono ?_)
      rintro ⟨err | _, h⟩ rfl
      · exact ⟨err, rfl⟩
      · refine .seq ((hlift (hput _ _)).mono ?_)
        rintro ⟨err | _, h⟩ rfl
        · exact ⟨err, rfl⟩
        · refine .seq (.outcome ((Runner.start_refused hactive).mono ?_))
          rintro _ rfl
          exact ⟨trivial, fun _ => ⟨_, rfl⟩⟩

/-- No task lets the core go while the runner is active. -/
theorem Task.perform_restful {h : Held A} (hactive : h.runner.state.isActive = true)
    (task : Task) : (task.perform.run h).Only Op.Restful := by
  cases task with
  | start => exact Within.bind ((Runner.start_refused hactive).mono fun _ _ => trivial)
  -- the algorithm that is there may be waited for and given up, but not let go again
  | wait patience timeout =>
      exact Within.bind ((Runner.wait_within h patience timeout).mono fun _ _ => trivial)
  | run patience =>
      refine Within.bind (Within.seq ((Runner.start_refused hactive).mono ?_))
      rintro _ rfl
      trivial
  | abandon => exact Within.bind ((Runner.abandon_within h).mono fun _ _ => trivial)
  | write e patience data =>
      refine Within.bind (Within.bind ((e.begin_refused hactive .write).mono ?_))
      rintro _ ⟨err, rfl⟩
      trivial
  | read e patience buffer =>
      refine Within.bind ?_
      rw [Engine.read]
      split
      · trivial
      · refine Within.bind ((e.begin_refused hactive .read).mono ?_)
        rintro _ ⟨err, rfl⟩
        trivial

/-- Every task keeps the saved registers of an active runner. -/
theorem Task.wp_perform_machine {h : Held A} {m : Machine A} (hc : h.Covered m) (task : Task) :
    (task.perform.run h).Ensures (fun r m' => r.2.Covered m') m := by
  cases task with
  | start => exact wp_then (wp_mono (Runner.wp_start_machine hc) fun _ _ hr => hr.1)
  | wait patience timeout =>
      exact wp_then (wp_mono (wp_restful (Runner.wait_within h patience timeout) m)
        fun _ _ hr => hc.follows hr.1 hr.2)
  | run patience =>
      refine wp_then (wp_seq (wp_mono (Runner.wp_start_machine hc) ?_))
      rintro ⟨e | _, h'⟩ m' ⟨hc', -⟩
      · exact hc'
      · exact wp_get (wp_mono (wp_restful (Runner.wait_within h' _ _) m')
          fun _ _ hr => hc'.follows hr.1 hr.2)
  | abandon =>
      exact wp_then (wp_mono (wp_restful (Runner.abandon_within h) m)
        fun _ _ hr => hc.follows hr.1 hr.2)
  | write e patience data =>
      refine wp_then (wp_then (wp_mono (e.wp_begin_machine hc .write) ?_))
      rintro ⟨err | _, h'⟩ m₁ hc₁
      · exact hc₁
      · refine wp_then (wp_liftOnly (wp_mono (wp_restful
          ((Engine.feedAll_steady data {}).weaken fun _ => Op.Steady.restful) m₁) ?_))
        rintro ⟨moved, progress⟩ m₂ ⟨-, hl₂⟩
        exact wp_mono (wp_restful (Engine.conclude_within h' .write patience _ _ _ _) m₂)
          fun _ _ hr => (hc₁.of_launched hl₂).follows hr.1 hr.2
  | read e patience buffer =>
      refine wp_then ?_
      rw [Engine.read]
      split
      · exact hc
      · refine wp_then (wp_mono (e.wp_begin_machine hc .read) ?_)
        rintro ⟨err | _, h'⟩ m₁ hc₁
        · exact hc₁
        · refine wp_then (wp_liftOnly (wp_mono (wp_restful
            ((Engine.drainAll_steady _ {}).weaken fun _ => Op.Steady.restful) m₁) ?_))
          rintro ⟨moved, progress⟩ m₂ ⟨-, hl₂⟩
          exact wp_then (wp_mono (wp_restful (Engine.conclude_within h' .read patience _ _ _ _) m₂)
            fun _ _ hr => (hc₁.of_launched hl₂).follows hr.1 hr.2)

/-! ## All lives of a runner -/

/-- What a runner of `image` and the machine it is used with can come to. -/
inductive Lifetime (image : A.Img) : Held A → Machine A → Prop where
  /-- The image was accepted. -/
  | accept {r : Runner A} (pollInterval : Nat) (busy : Bool) (m : Machine A) :
      Runner.ofImage? image = .ok r → Lifetime image ⟨{ r with pollInterval }, busy⟩ m
  /-- The runner does a task. -/
  | perform {h h' : Held A} {m m' : Machine A} {error : Option Error} (task : Task) :
      Lifetime image h m →
      (machine A).Reaches (task.perform.run h) m (.done (error, h')) m' →
      Lifetime image h' m'
  /-- Between tasks, anything may happen to the machine, and other runners may use it; but while
      this one is active, nobody else lets the core go. -/
  | meanwhile {h : Held A} {m m' : Machine A} (busy : Bool) :
      Lifetime image h m → (h.runner.state.isActive = true → m'.launched = m.launched) →
      Lifetime image { h with busy } m'
  /-- While it is not active, the runner may do tasks on targets of any kind. -/
  | elsewhere {h h' : Held A} {m m' : Machine A} {error : Option Error} {log : Transcript A}
      (task : Task) :
      Lifetime image h m → h.runner.state.isActive = false →
      (recorder A).Reaches (task.perform.run h) [] (.done (error, h')) log →
      h'.runner.state.isActive = false → Lifetime image h' m'

namespace Lifetime

variable {image : A.Img} {h : Held A} {m : Machine A}

/-- Through all of its lives, a runner runs the image that was accepted, and while it is active it
    has saved what it needs. -/
theorem kept (hl : Lifetime image h m) : h.runner.Runs image ∧ h.Covered m := by
  induction hl with
  | accept pollInterval busy m hacc =>
      obtain ⟨regs, hregs, -, rfl⟩ := Runner.eq_of_ofImage? hacc
      exact ⟨⟨rfl, hregs⟩, .of_inactive rfl⟩
  | perform task _ hreach ih =>
      refine ⟨ih.1.of_origin ((Task.perform_origin _ task).of_reaches hreach), ?_⟩
      exact wp_done_at (fun r => Held.Covered.lasts r.2) (Task.wp_perform_machine ih.2 task) hreach
  | meanwhile busy _ hm ih => exact ⟨ih.1, fun hactive => ih.2.of_launched (hm hactive) hactive⟩
  | elsewhere task _ _ hreach hidle ih =>
      exact ⟨ih.1.of_origin ((Task.perform_origin _ task).of_reaches hreach),
        .of_inactive hidle⟩

/-- A completed run stays so: the core is halted. -/
theorem lasts_completes {p : Snapshot A → Prop} {r : Except Error Runner.Settled × Held A} :
    (machine A).Lasts (fun _ => True) fun m' => r.1 = .ok .completed →
      ∃ before found, p before ∧ r.2.runner.Completes image before found m' := by
  refine ⟨?_, fun _ => trivial⟩
  rintro w w' ⟨hw, -⟩ hc hr
  obtain ⟨before, found, -, hc⟩ := hc hr
  exact absurd hc.halted (by rw [hw]; exact nofun)

/-- RUNS LEAVE NO TRACE.  A start that succeeds has noted the registers as they were, and nothing
    that is done with the runner while it is active takes a note of its own.  If a wait then
    succeeds, the run COMPLETES: all registers that it touched are as they were, the core had
    halted at the exit point, and the image is the accepted one with its outputs read back from
    the halted core.  So does a run that succeeds, which is a start and a wait.  Giving up on a
    target that polls as halted puts the registers back as well. -/
theorem transparent (hl : Lifetime image h m) :
    (∀ (h' : Held A) (m' : Machine A),
      (machine A).Reaches (Runner.start.run.run h) m (.done (.ok (), h')) m' →
      ∃ before, m'.launched = some before ∧ (m.halted = true → before.regs = m.regs)) ∧
    (∀ (task : Task) (error : Option Error) (h' : Held A) (m' : Machine A),
      h.runner.state.isActive = true →
      (machine A).Reaches (task.perform.run h) m (.done (error, h')) m' →
      m'.launched = m.launched) ∧
    (∀ (patience timeout : Nat) (h' : Held A) (m' : Machine A),
      (machine A).Reaches ((Runner.wait patience timeout).run.run h) m
        (.done (.ok .completed, h')) m' →
      ∃ before found, m.launched = some before ∧ h'.runner.Completes image before found m') ∧
    (∀ (patience : Nat) (h' : Held A) (m' : Machine A),
      (machine A).Reaches ((Runner.run patience).run.run h) m (.done (.ok .completed, h')) m' →
      ∃ before found, (m.halted = true → before.regs = m.regs) ∧
        h'.runner.Completes image before found m') ∧
    (∀ (result : Except Error Unit) (h' : Held A) (m' : Machine A),
      h.runner.state.isActive = true →
      (machine A).Reaches (Runner.abandon.run.run h) m (.done (result, h')) m' →
      m'.found.isSome = true →
      ∃ before, m.launched = some before ∧
        ∀ reg, image.Touches reg → m'.regs reg = before.regs reg) := by
  obtain ⟨hr, hc⟩ := hl.kept
  refine ⟨fun h' m' hreach => ?_, fun task error h' m' hactive hreach => ?_,
    fun patience timeout h' m' hreach => ?_, fun patience h' m' hreach => ?_,
    fun result h' m' hactive hreach hfound => ?_⟩
  · have hlasts : ∀ r : Except Error Unit × Held A, (machine A).Lasts (fun _ => True) fun m' =>
        r.2.Covered m' ∧ (r.1 = .ok () → ∃ before, m'.launched = some before ∧
          (m.halted = true → before.regs = m.regs)) := by
      refine fun r => ⟨?_, fun _ => trivial⟩
      rintro w w' ⟨-, -, hl⟩ ⟨hcov, hstart⟩
      refine ⟨hcov.of_launched hl, fun hok => ?_⟩
      rw [hl]
      exact hstart hok
    exact (wp_done_at hlasts (Runner.wp_start_machine hc) hreach).2 rfl
  · have hlasts : (machine A).Lasts (fun _ => True) fun m' : Machine A =>
        True ∧ m'.launched = m.launched :=
      ⟨fun hm h => ⟨trivial, hm.2.2.trans h.2⟩, fun _ => trivial⟩
    exact (wp_done_at (fun _ => hlasts) (wp_restful (Task.perform_restful hactive task) m)
      hreach).2
  · exact wp_done_at (fun _ => lasts_completes) (Runner.wp_wait_machine hr hc patience timeout)
      hreach rfl
  · exact wp_done_at (fun _ => lasts_completes) (Runner.wp_run_machine hr hc patience) hreach rfl
  · -- giving up puts back what it can, and it can if the core was found
    obtain ⟨before, hb, hs⟩ := hc hactive
    have hlasts : ∀ _ : Except Error Unit × Held A, (machine A).Lasts (fun _ => True)
        fun m' : Machine A => m'.found.isSome = true →
          m'.halted = true ∧ ∀ reg, image.Touches reg → m'.regs reg = before.regs reg := by
      refine fun _ => ⟨?_, fun _ => trivial⟩
      rintro w w' ⟨hw, hf, -⟩ hrest hfound
      exact absurd (hrest (hf ▸ hfound)).1 (by rw [hw]; exact nofun)
    exact ⟨before, hb, (wp_done_at hlasts (Runner.wp_abandon_machine hr hs hactive m) hreach
      hfound).2⟩

/-- An algorithm of a plain core that is handed its stack pointer, and halts on its own. -/
def sampleImage : (plainCore 32).Img where
  entry := 0x1000
  exit := 0
  regs := [{ name := "sp", value := 0x2000, direction := .both }]
  info := ()

/-- The runner of that algorithm once it was started on a core whose registers held 0x40. -/
def sampleStarted : Held (plainCore 32) where
  runner :=
    { image := sampleImage
      regs := [.sp]
      saved := [(.pc, 0x40), (.sp, 0x40)]
      state := .started }
  busy := true

/-- That core before the start. -/
def sampleBefore : Snapshot (plainCore 32) where
  regs _ := 0x40
  memory _ := 0

/-- That core once the algorithm has put 7 into all registers, and halted. -/
def sampleSpoiled : Machine (plainCore 32) where
  regs _ := 7
  memory _ := 1
  halted := true
  found := some sampleBefore
  launched := some sampleBefore

/-- A runner that was started, on a machine that has gone its own ways. -/
theorem sample_lifetime : Lifetime sampleImage sampleStarted sampleSpoiled := by
  have haccepted : Runner.ofImage? sampleImage = .ok { image := sampleImage, regs := [.sp] } := rfl
  have hstart : ∃ m, (machine (plainCore 32)).Reaches
      (Task.start.perform.run ⟨{ image := sampleImage, regs := [.sp] }, false⟩)
      { sampleBefore with halted := true, found := none, launched := none }
      (.done (none, sampleStarted)) m ∧ m.launched = some sampleBefore := by
    -- both registers are saved, the parameter is put in place, and the core is let go
    exact ⟨_, .answer (.ok .halted) ⟨rfl, rfl⟩ (.answer (.ok 0x40) ⟨rfl, rfl⟩
      (.answer (.ok 0x40) ⟨rfl, rfl⟩ (.answer (.ok ()) ⟨rfl, rfl⟩ (.answer () rfl
        (.answer (.ok ()) rfl (.refl _ _)))))), rfl⟩
  obtain ⟨m, hreach, hl⟩ := hstart
  exact .meanwhile true (.perform .start (.accept 1 false _ haccepted) hreach) fun _ => hl.symm

/-- The wait reads the 7 back, and restores the registers. -/
theorem transparent_sample :
    ∃ (h : Held (plainCore 32)) (m : Machine (plainCore 32)),
      (machine (plainCore 32)).Reaches ((Runner.wait 1 10).run.run sampleStarted) sampleSpoiled
        (.done (.ok .completed, h)) m ∧
      (∃ before found, sampleSpoiled.launched = some before ∧
        h.runner.Completes sampleImage before found m) ∧ m.regs .sp = 0x40 := by
  have hwait : ∃ (h : Held (plainCore 32)) (m : Machine (plainCore 32)),
      (machine (plainCore 32)).Reaches ((Runner.wait 1 10).run.run sampleStarted) sampleSpoiled
        (.done (.ok .completed, h)) m := by
    -- where it halted, what is in the parameter, and both registers back
    exact ⟨_, _, .answer (0 : UInt64) rfl (.answer (.ok .halted) ⟨rfl, rfl⟩
      (.answer (.ok 7) ⟨rfl, rfl⟩ (.answer (.ok 7) ⟨rfl, rfl⟩ (.answer (.ok ()) ⟨rfl, rfl⟩
        (.answer (.ok ()) ⟨rfl, rfl⟩ (.refl _ _))))))⟩
  obtain ⟨h, m, hreach⟩ := hwait
  obtain ⟨before, found, hb, hc⟩ := (Lifetime.transparent sample_lifetime).2.2.1 1 10 h m hreach
  refine ⟨h, m, hreach, ⟨before, found, hb, hc⟩, ?_⟩
  obtain rfl : sampleBefore = before := Option.some.inj hb
  exact hc.restored .sp (Or.inr (Or.inl ⟨_, List.mem_cons_self, rfl⟩))

end Lifetime

end DebugLink
