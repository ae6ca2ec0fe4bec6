import DebugLink.Proofs.Runner.Idle

/-!
# How the parts of a run fail

An error either says that the caller did something out of order (`Error.isMisuse`), or that
something did not work out.  Which of the two is settled early: once the target was found free and
halted, NOTHING THAT FOLLOWS FAILS WITH A MISUSE.

* `Error.Mishap` is what putting things in place, collecting results and cleaning up may fail with:
  an access was refused, or something did not fit into the target.
* `Fails P x` says that `x` fails like `P` and in no other way, whatever is answered.  It is built
  up along the `do` blocks, like `Confined`.
* `Runner.launch_fails` and `Runner.finish_fails` are the two halves of a run, `Engine.feed_fails`
  and `Engine.drain_fails` the loops that move data.
-/

namespace DebugLink

open Dialogue

variable {A : Arch} {α β σ : Type} {P Q : Error → Prop}

/-- An access was refused, or something did not fit into the target. -/
def Error.Mishap : Error → Prop
  | .unexpectedExit _ | .addressWrap .. | .unsupported _ | .unalignedAccess | .nonFatal | .errno _
  | .fatal _ => True
  | _ => False

/-- Whatever a target answers to an access that it refuses is a mishap. -/
theorem Error.mishap_ofTarget (e : TargetError) : (Error.ofTarget e).Mishap := by
  cases e <;> trivial

/-- The caller did nothing out of order. -/
def Error.Blameless (err : Error) : Prop :=
  err.isMisuse = false

/-- No mishap is a misuse. -/
theorem Error.Mishap.blameless {err : Error} (h : err.Mishap) : err.Blameless := by
  cases err <;> first | exact rfl | exact h.elim

/-- So nobody is to blame for an access that was refused. -/
theorem Error.blameless_ofTarget (e : TargetError) : (Error.ofTarget e).Blameless :=
  (Error.mishap_ofTarget e).blameless

/-- If it failed, then like that. -/
def FailsAs (P : Error → Prop) (r : Except Error α) : Prop :=
  ∀ err, r = .error err → P err

/-- What did not fail did not fail otherwise. -/
theorem failsAs_ok (a : α) : FailsAs P (.ok a : Except Error α) :=
  nofun

/-- A failure is what it is. -/
theorem failsAs_error {err : Error} (h : P err) : FailsAs P (.error err : Except Error α) := by
  rintro _ ⟨⟩
  exact h

/-- Less can be said of it. -/
theorem FailsAs.weaken (hPQ : ∀ err, P err → Q err) {r : Except Error α} (h : FailsAs P r) :
    FailsAs Q r :=
  fun err herr => hPQ err (h err herr)

/-- Of two results the first failure counts. -/
theorem FailsAs.seqRight {r : Except Error α} {r' : Except Error β} (h : FailsAs P r)
    (h' : FailsAs P r') : FailsAs P (r *> r') := by
  cases r with
  | ok a => cases r' <;> exact h'
  | error err => exact failsAs_error (h err rfl)

/-- Whatever is asked and answered: if it fails, then like that. -/
def Fails (P : Error → Prop) (x : ExceptT Error (StateT σ (Dialogue A)) α) : Prop :=
  ∀ s, (x.run.run s).Ends fun r => FailsAs P r.1

/-- The same, where there is no local state. -/
abbrev FailsAlone (P : Error → Prop) (x : Link A α) : Prop :=
  x.run.Ends (FailsAs P)

namespace FailsAlone

/-- What fails in its first part, or in what comes after it, fails like one of the two. -/
theorem bind {x : Link A α} {f : α → Link A β} (hx : FailsAlone P x)
    (hf : ∀ a, FailsAlone P (f a)) : FailsAlone P (x >>= f) := by
  show Within _ (ExceptT.run (x >>= f)) _
  rw [ExceptT.run_bind]
  refine Within.bind (hx.mono ?_)
  rintro (err | a) hr
  · exact failsAs_error (hr err rfl)
  · exact hf a

/-- A call fails as the target says. -/
theorem call (hP : ∀ e, P (.ofTarget e)) (c : Call A) : FailsAlone P (call c) := by
  refine ⟨trivial, ?_⟩
  rintro (e | a)
  · exact failsAs_error (hP e)
  · exact failsAs_ok a

/-- Less can be said of it. -/
theorem weaken (hPQ : ∀ err, P err → Q err) {x : Link A α} (h : FailsAlone P x) :
    FailsAlone Q x :=
  Within.mono h fun _ => .weaken hPQ

end FailsAlone

namespace Fails

/-- Less can be said of it. -/
theorem weaken (hPQ : ∀ err, P err → Q err) {x : ExceptT Error (StateT σ (Dialogue A)) α}
    (h : Fails P x) : Fails Q x :=
  fun s => (h s).mono fun _ => .weaken hPQ

/-- What is done at once does not fail. -/
theorem pure (a : α) : Fails P (Pure.pure a : ExceptT Error (StateT σ (Dialogue A)) α) :=
  fun _ => failsAs_ok a

/-- What is thrown is how it fails. -/
theorem throw {err : Error} (h : P err) :
    Fails P (throw err : ExceptT Error (StateT σ (Dialogue A)) α) :=
  fun _ => failsAs_error h

/-- Nothing comes after it. -/
theorem throw_bind {err : Error} (h : P err) (f : α → ExceptT Error (StateT σ (Dialogue A)) β) :
    Fails P (MonadExcept.throw err >>= f) :=
  fun _ => failsAs_error h

/-- A result that is there already fails as it did. -/
theorem ofExcept {r : Except Error α} (h : FailsAs P r) :
    Fails P (MonadExcept.ofExcept r : ExceptT Error (StateT σ (Dialogue A)) α) := by
  cases r with
  | ok a => exact pure a
  | error err => exact throw (h err rfl)

/-- In both parts of a sequence it fails like that, so it does as a whole. -/
theorem bind {x : ExceptT Error (StateT σ (Dialogue A)) α}
    {f : α → ExceptT Error (StateT σ (Dialogue A)) β} (hx : Fails P x) (hf : ∀ a, Fails P (f a)) :
    Fails P (x >>= f) := by
  refine fun s => .seq ((hx s).mono ?_)
  rintro ⟨err | a, s'⟩ hr
  · exact failsAs_error (hr err rfl)
  · exact hf a s'

/-- A first part that is done with values of one kind. -/
theorem bind_liftDialogue {d : Dialogue A α} {R : α → Prop}
    {f : α → ExceptT Error (StateT σ (Dialogue A)) β} (hd : d.Ends R)
    (hf : ∀ a, R a → Fails P (f a)) : Fails P (liftM d >>= f) :=
  fun s => .seq (.liftDialogue (hd.mono fun a ha => hf a ha s))

/-- A computation that is run to its end, be it a failure. -/
theorem bind_outcome {x : ExceptT Error (StateT σ (Dialogue A)) α}
    {f : Except Error α → ExceptT Error (StateT σ (Dialogue A)) β} (hx : Fails Q x)
    (hf : ∀ r, FailsAs Q r → Fails P (f r)) : Fails P (outcome x >>= f) :=
  fun s => .seq (.outcome ((hx s).mono fun r hr => hf r.1 hr r.2))

/-- Looking at the local state does not fail. -/
theorem get : Fails P (get : ExceptT Error (StateT σ (Dialogue A)) σ) :=
  fun s => failsAs_ok s

/-- Nor does changing it. -/
theorem modify (f : σ → σ) :
    Fails P (modify f : ExceptT Error (StateT σ (Dialogue A)) PUnit) :=
  fun _ => failsAs_ok _

/-- Without local state it fails in no other way. -/
theorem lift {x : Link A α} (hx : FailsAlone P x) :
    Fails P (liftM x : ExceptT Error (StateT σ (Dialogue A)) α) :=
  fun _ => .lift hx

/-- Notes are always taken. -/
theorem note (n : Note) : Fails P (note n : ExceptT Error (StateT σ (Dialogue A)) Unit) :=
  fun _ => ⟨trivial, fun _ => failsAs_ok ()⟩

/-- Questions about the target are always answered. -/
theorem feature (f : Feature) :
    Fails P (feature f : ExceptT Error (StateT σ (Dialogue A)) f.Answer) :=
  fun _ => ⟨trivial, fun a => failsAs_ok a⟩

/-- So are requests to the host. -/
theorem host (r : HostRequest) :
    Fails P (host r : ExceptT Error (StateT σ (Dialogue A)) r.Answer) :=
  fun _ => ⟨trivial, fun a => failsAs_ok a⟩

/-- A call fails as the target says, and the local state has no part in it. -/
theorem call (hP : ∀ e, P (.ofTarget e)) (c : Call A) :
    Fails P (call c : ExceptT Error (StateT σ (Dialogue A)) c.Answer) := by
  refine fun _ => ⟨trivial, ?_⟩
  rintro (e | a)
  · exact failsAs_error (hP e)
  · exact failsAs_ok a

end Fails

open Error (Blameless Mishap mishap_ofTarget blameless_ofTarget)

/-! ## Memory -/

/-- A word cannot be read only if the target refuses that. -/
theorem readWord_fails (size : WordSize) (a : A.Addr) :
    FailsAlone Mishap (readWord size a) := by
  refine ⟨trivial, ?_⟩
  rintro (e | bytes)
  · exact ⟨trivial, fun _ => failsAs_error (mishap_ofTarget e)⟩
  · exact ⟨trivial, fun _ => ⟨trivial, fun _ => failsAs_ok _⟩⟩

/-- It cannot be written only if the target refuses that. -/
theorem writeWord_fails (size : WordSize) (a : A.Addr) (v : Nat) :
    FailsAlone Mishap (writeWord size a v) :=
  ⟨trivial, fun _ => ⟨trivial, fun _ => FailsAlone.call mishap_ofTarget _⟩⟩

/-- A block is refused by the target, or because it does not fit. -/
theorem readBuffer_failsAs (hP : ∀ e, P (.ofTarget e)) {a : A.Addr} {n : Nat}
    (hwraps : ¬ Arch.Fits a n → P (.addressWrap a.toNat n)) : FailsAlone P (readBuffer a n) := by
  refine ⟨trivial, fun _ => ?_⟩
  show FailsAlone _ (if h : n = 0 then _ else _)
  split
  · exact failsAs_ok _
  · rw [checkFits]
    split
    · exact .call hP _
    · next hfits => exact ⟨trivial, fun _ => failsAs_error (hwraps hfits)⟩

/-- So is one that is to be written; an empty one is never refused. -/
theorem writeBuffer_failsAs (hP : ∀ e, P (.ofTarget e)) {a : A.Addr} {bs : List UInt8}
    (hwraps : ¬ Arch.Fits a bs.length → P (.addressWrap a.toNat bs.length)) :
    FailsAlone P (writeBuffer a bs) := by
  refine ⟨trivial, fun _ => ?_⟩
  show FailsAlone _ (if bs = [] then _ else _)
  split
  · exact failsAs_ok ()
  · rw [checkFits]
    split
    · exact .call hP _
    · next hfits => exact ⟨trivial, fun _ => failsAs_error (hwraps hfits)⟩

/-- Either way that is a mishap. -/
theorem readBuffer_fails (a : A.Addr) (n : Nat) : FailsAlone Mishap (readBuffer a n) :=
  readBuffer_failsAs mishap_ofTarget fun _ => trivial

/-- Either way that is a mishap. -/
theorem writeBuffer_fails (a : A.Addr) (bs : List UInt8) :
    FailsAlone Mishap (writeBuffer a bs) :=
  writeBuffer_failsAs mishap_ofTarget fun _ => trivial

namespace Runner

/-! ## Starting -/

/-- A core that is not halted is one failure, a poll that is refused the other. -/
theorem requireHalted_fails (hP : ∀ e, P (.ofTarget e)) (hnot : P .notHalted) :
    FailsAlone P (requireHalted (A := A)) := by
  refine .bind (.call hP _) fun state => ?_
  show FailsAlone _ (if state ≠ .halted then _ else _)
  split
  · exact ⟨trivial, fun _ => failsAs_error hnot⟩
  · exact failsAs_ok ()

/-- A register cannot be read. -/
theorem saveRegs_fails (regs : List A.Reg) : Fails Mishap (saveRegs regs) := by
  induction regs with
  | nil => exact .pure ()
  | cons reg rest ih =>
      refine .bind .get fun h => ?_
      split
      · exact .bind (.call mishap_ofTarget _) fun _ => .bind (.modify _) fun _ => ih
      · exact ih

/-- A memory parameter cannot be written. -/
theorem writeMem_fails (params : List (MemParam A.width)) :
    FailsAlone Mishap (writeMem params) := by
  induction params with
  | nil => exact failsAs_ok ()
  | cons p rest ih =>
      rw [writeMem]
      split
      · exact .bind (writeBuffer_fails _ _) fun _ => ih
      · exact ih

/-- A register parameter cannot be written. -/
theorem writeRegs_fails (params : List (RegParam A.width × A.Reg)) :
    FailsAlone Mishap (writeRegs params) := by
  induction params with
  | nil => exact failsAs_ok ()
  | cons p rest ih =>
      obtain ⟨p, reg⟩ := p
      rw [writeRegs]
      split
      · exact .bind (.call mishap_ofTarget _) fun _ => ih
      · exact ih

/-- Nor can a register of the context. -/
theorem writeContext_fails (regs : List (A.Reg × A.Addr)) :
    FailsAlone Mishap (writeContext regs) := by
  induction regs with
  | nil => exact failsAs_ok ()
  | cons entry rest ih => exact .bind (.call mishap_ofTarget _) fun _ => ih

/-- There are no breakpoints, or this one is refused, or it is there already. -/
theorem arm_fails : Fails Mishap (arm (A := A)) := by
  refine .bind .get fun h => ?_
  dsimp only
  split
  · refine .bind (.feature _) fun _ => ?_
    split
    · exact .throw_bind trivial _
    · refine .bind (.call mishap_ofTarget _) fun _ => ?_
      split
      · exact .bind (.note _) fun _ => .throw_bind trivial _
      · exact .modify _
  · exact .pure ()

/-- Loading fails with a mishap of one of its parts. -/
theorem load_fails : Fails Mishap (load (A := A)) := by
  refine .bind (.modify _) fun _ => .bind .get fun h => .bind (saveRegs_fails _) fun _ => ?_
  refine .bind (.lift (writeMem_fails _)) fun _ => .bind (.lift (writeRegs_fails _)) fun _ => ?_
  exact .bind (.lift (writeContext_fails _)) fun _ => arm_fails

/-- A start that gets as far as putting things in place does not fail with a misuse any more. -/
theorem launch_fails : Fails Mishap (launch (A := A)) :=
  .bind load_fails fun _ => .bind .get fun _ => .bind (.note _) fun _ => .call mishap_ofTarget _

/-! ## Cleaning up and collecting -/

/-- The breakpoint cannot be removed; that it was gone is no failure. -/
theorem disarm_fails : Fails Mishap (disarm (A := A)) := by
  refine .bind .get fun h => ?_
  dsimp only
  split
  · exact .pure ()
  · refine .bind (.modify _) fun _ => .bind (.feature _) fun _ => ?_
    split
    · refine .bind (.call mishap_ofTarget _) fun _ => ?_
      split
      · exact .note _
      · exact .pure ()
    · exact .pure ()

/-- The first refusal is reported, after all of the registers were tried. -/
theorem writeEach_fails (regs : List (A.Reg × A.Addr)) :
    (writeEach regs).Ends (FailsAs Mishap) := by
  induction regs with
  | nil => exact failsAs_ok ()
  | cons entry rest ih =>
      refine ⟨trivial, ?_⟩
      rintro (e | _)
      · -- the rest is tried all the same, and the first failure is the one that counts
        refine ⟨trivial, fun _ => ?_⟩
        exact Within.bind (d := writeEach rest)
          (ih.mono fun _ _ => failsAs_error (mishap_ofTarget e))
      · exact ih

/-- The saved registers cannot be put back. -/
theorem restoreContext_fails : Fails Mishap (restoreContext (A := A)) :=
  .bind .get fun _ => .bind (.modify _) fun _ =>
    .bind_liftDialogue (writeEach_fails _) fun _ => .ofExcept

/-- A memory parameter cannot be read back. -/
theorem readMem_fails (params : List (MemParam A.width)) :
    (readMem params).Ends fun r => FailsAs Mishap r.1 := by
  induction params with
  | nil => exact failsAs_ok ()
  | cons p rest ih =>
      rw [readMem]
      split
      · refine Within.bind ((readBuffer_fails _ _).mono ?_)
        rintro (err | bytes) hr
        · exact failsAs_error (hr err rfl)
        · exact Within.bind (ih.mono fun _ hr => hr)
      · exact Within.bind (ih.mono fun _ hr => hr)

/-- A register parameter cannot be read back. -/
theorem readRegs_fails (params : List (RegParam A.width)) (regs : List A.Reg) :
    (readRegs params regs).Ends fun r => FailsAs Mishap r.1 := by
  induction params generalizing regs with
  | nil => cases regs <;> exact failsAs_ok ()
  | cons p rest ih =>
      cases regs with
      | nil => exact failsAs_ok ()
      | cons reg regs =>
          rw [readRegs]
          split
          · refine ⟨trivial, ?_⟩
            rintro (e | value)
            · exact failsAs_error (mishap_ofTarget e)
            · exact Within.bind (d := readRegs rest regs) ((ih regs).mono fun _ hr => hr)
          · exact Within.bind ((ih regs).mono fun _ hr => hr)

/-- The core stopped elsewhere, or something cannot be read back. -/
theorem gather_fails : Fails Mishap (gather (A := A)) := by
  refine .bind .get fun h => .bind (.call mishap_ofTarget _) fun pc => ?_
  split
  · -- the core is not where it should have stopped
    exact .bind (.note _) fun _ => .throw_bind trivial _
  · refine .bind_liftDialogue (readMem_fails _) fun r hr => ?_
    refine .bind (.modify _) fun _ => .bind (.ofExcept hr) fun _ => ?_
    refine .bind_liftDialogue (readRegs_fails _ _) fun r' hr' => ?_
    exact .bind (.modify _) fun _ => .ofExcept hr'

/-- Collecting fails with a mishap. -/
theorem collect_fails : Fails Mishap (collect (A := A)) := by
  rw [collect_eq]
  exact .bind disarm_fails fun _ => gather_fails

/-- Neither does what comes after the halt. -/
theorem finish_fails : Fails Mishap (finish (A := A)) := by
  refine .bind_outcome collect_fails fun collected hr => ?_
  refine .bind_outcome restoreContext_fails fun restored hr' => ?_
  -- both halves are run to their end, so the failure of the first is reported only then
  have hboth : FailsAs Mishap (collected *> restored) := hr.seqRight hr'
  dsimp only
  generalize collected *> restored = both at hboth ⊢
  cases both with
  | error err => exact .bind (.modify _) fun _ => .throw (hboth err rfl)
  | ok _ => exact .modify _

/-- A wait for an algorithm that is on the target does not fail with a misuse. -/
theorem wait_fails {h : Held A} (hactive : h.runner.state.isActive = true)
    (patience timeout : Nat) :
    ((wait (A := A) patience timeout).run.run h).Ends
      fun r => FailsAs Blameless r.1 := by
  show ((if (!h.runner.state.isActive) = true then _ else _ : RunM A Settled).run.run h).Within _ _
  rw [hactive]
  refine ⟨trivial, fun now => .seq (.liftDialogue ((only_any _).mono ?_))⟩
  rintro watched -
  cases watched with
  | undecided => exact failsAs_ok _
  | failed e => exact failsAs_error (blameless_ofTarget e)
  -- the host's own reasons to stop are no misuse
  | shutdown => exact failsAs_error rfl
  | expired => exact ⟨trivial, fun _ => failsAs_error rfl⟩
  | halted =>
      have hfinish : Fails Blameless (finish (A := A)) :=
        finish_fails.weaken fun _ => Mishap.blameless
      exact (hfinish.bind fun _ => .pure _) h

/-- A runner that is active is not started again, and nothing is asked. -/
theorem start_active {h : Held A} (hbusy : h.busy = false)
    (hactive : h.runner.state.isActive = true) :
    (start (A := A)).run.run h = .done (.error .alreadyRunning, h) := by
  obtain ⟨runner, busy⟩ := h
  obtain rfl : busy = false := hbusy
  show ((if runner.state.isActive = true then _ else _ : RunM A Unit).run.run ⟨runner, false⟩) = _
  rw [if_pos hactive]
  rfl

/-- A start says that something runs if the target is busy or the runner active, and only then. -/
theorem start_fails {h : Held A} (hbusy : h.busy = false)
    (hidle : h.runner.state.isActive = false) :
    ((start (A := A)).run.run h).Ends fun r => FailsAs (· ≠ .alreadyRunning) r.1 := by
  have hne : ∀ err : Error, err.Blameless → err ≠ .alreadyRunning := by
    rintro _ hblame rfl
    cases hblame
  have hpoll : FailsAlone (· ≠ .alreadyRunning) (requireHalted (A := A)) :=
    requireHalted_fails (fun e => hne _ (blameless_ofTarget e)) Error.noConfusion
  refine .get ?_
  rw [hbusy, hidle]
  refine Fails.bind (.lift hpoll) (fun _ => .bind_outcome launch_fails fun launched hr => ?_) h
  cases launched with
  | ok _ => exact .modify _
  | error err =>
      -- cleaning up has no say in it
      refine .bind_outcome disarm_fails fun _ _ => .bind_outcome restoreContext_fails fun _ _ => ?_
      exact .throw (hne err (hr err rfl).blameless)

end Runner

namespace Engine

variable {e : Engine}

/-! ## Moving data -/

/-- A ring that the core cannot address is nobody's misuse of a runner. -/
theorem address_fails (n : Nat) : FailsAlone (A := A) Blameless (address n) := by
  rw [address]
  cases A.addr? n with
  | none => exact failsAs_error rfl
  | some a => exact failsAs_ok a

/-- A pointer that cannot be read fails as the read did. -/
theorem partnerPointer_fails (flow : Flow) (place : A.Addr) :
    Fails Blameless (partnerPointer flow place) := by
  refine .bind_outcome (.lift ((readWord_fails _ _).weaken fun _ => Mishap.blameless)) ?_
  rintro (err | ptr) hr
  · exact .bind (.note _) fun _ => .throw (hr err rfl)
  · exact .pure ptr

/-- A pointer that is zero or out of place is the algorithm's doing. -/
theorem checkPointer_fails (flow : Flow) (ptr : Nat) :
    Fails (A := A) Blameless (e.checkPointer flow ptr) := by
  rw [checkPointer]
  split
  · exact .bind (.note _) fun _ => .throw_bind (show Blameless .operationFailed from rfl) _
  · split
    · exact .bind (.note _) fun _ => .throw rfl
    · exact .pure ()

/-- A host that shuts down is nobody's fault. -/
theorem giveWay_fails : Fails (A := A) Blameless giveWay := by
  refine .bind (.host _) fun _ => .bind (.host _) fun shutdown => ?_
  split
  · exact .throw rfl
  · exact .pure ()

/-- Backing off fails only if the host shuts down. -/
theorem backOff_fails : Fails (A := A) Blameless e.backOff :=
  .bind (.host _) fun _ => giveWay_fails

/-- A write fails with a refusal, a bad pointer, a shutdown or a timeout. -/
theorem feed_fails (wpPlace rpPlace : A.Addr) (wp : Nat) (rest : List UInt8) (stalls : Nat) :
    Fails Blameless (e.feed wpPlace rpPlace wp rest stalls) := by
  induction wp, rest, stalls using Engine.feed.induct e with
  | case1 wp stalls =>
      rw [feed, dif_pos rfl]
      exact .pure ()
  | case2 wp rest stalls hne ihStall ihPiece =>
      rw [feed, dif_neg hne]
      refine .bind (partnerPointer_fails _ _) fun rp => .bind .get fun _ => ?_
      refine .bind (.note _) fun _ => .bind (checkPointer_fails _ _) fun _ => ?_
      -- no room: the loop backs off, or gives up
      split
      · refine .bind backOff_fails fun _ => ?_
        split
        · next ht => exact .bind (.modify _) fun _ => ihStall rp ht
        · exact .bind (.note _) fun _ => .throw rfl
      · -- room: a piece, and the pointer behind it
        next hs =>
        have hwrite := fun a bs =>
          (writeBuffer_fails (A := A) a bs).weaken fun _ => Mishap.blameless
        have hpublish := fun v => (writeWord_fails .full wpPlace v).weaken fun _ => Mishap.blameless
        refine .bind (.lift (address_fails _)) fun _ => .bind (.lift (hwrite _ _)) fun _ => ?_
        refine .bind (.modify _) fun _ => .bind (.lift (hpublish _)) fun _ => ?_
        exact .bind giveWay_fails fun _ => ihPiece rp hs

/-- So does a read. -/
theorem drain_fails (wpPlace rpPlace : A.Addr) (rp rest stalls : Nat) :
    Fails Blameless (e.drain wpPlace rpPlace rp rest stalls) := by
  induction rp, rest, stalls using Engine.drain.induct e with
  | case1 rp stalls =>
      rw [drain, dif_pos rfl]
      exact .pure ()
  | case2 rp rest stalls hne ihStall ihPiece =>
      rw [drain, dif_neg hne]
      refine .bind (partnerPointer_fails _ _) fun wp => .bind .get fun _ => ?_
      refine .bind (.note _) fun _ => .bind (checkPointer_fails _ _) fun _ => ?_
      -- no data: the loop backs off, or gives up
      split
      · refine .bind backOff_fails fun _ => ?_
        split
        · next ht => exact .bind (.modify _) fun _ => ihStall wp ht
        · exact .bind (.note _) fun _ => .throw rfl
      · -- data: a piece, and the pointer behind it
        next hs =>
        have hread := fun a n => (readBuffer_fails (A := A) a n).weaken fun _ => Mishap.blameless
        have hpublish := fun v => (writeWord_fails .full rpPlace v).weaken fun _ => Mishap.blameless
        refine .bind (.lift (address_fails _)) fun _ => .bind (.lift (hread _ _)) fun _ => ?_
        refine .bind (.modify _) fun _ => .bind (.modify _) fun _ => ?_
        exact .bind (.lift (hpublish _)) fun _ => .bind giveWay_fails fun _ => ihPiece wp hs

/-- Moving data does not fail with a misuse. -/
theorem feedAll_fails (data : List UInt8) : Fails (A := A) Blameless (e.feedAll data) :=
  .bind (.lift (address_fails _)) fun _ => .bind (.lift (address_fails _)) fun _ =>
    feed_fails _ _ _ _ _

/-- Nor does it on the way back. -/
theorem drainAll_fails (len : Nat) : Fails (A := A) Blameless (e.drainAll len) :=
  .bind (.lift (address_fails _)) fun _ => .bind (.lift (address_fails _)) fun _ =>
    drain_fails _ _ _ _ _

end Engine

end DebugLink
