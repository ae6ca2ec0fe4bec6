import DebugLink.Proofs.Transcript
import DebugLink.Transfer.Read
import DebugLink.Transfer.Write

/-!
# What the parts of a run do not do

The core is let go in one place and looked at in a few.  Everything else is `Steady`: it
neither resumes the core nor polls it.  The parts of a run that put things in place or put them
back are steady, and leave alone whatever does not come and go in a run (`Held.standing`).
So do the loops that move data.

What comes after the halt is `Quiet`: it does not write memory either.  Breakpoints come and go in
`arm` and `disarm` alone; the rest moves nothing but data (`Op.Data`, `Op.Gentle`).  Only loops ask
anything of the host (`Op.Inwardly`).
-/

namespace DebugLink

variable {A : Arch} {α τ : Type}

/-- The core is not let go. -/
def Op.Restful : Op A → Prop
  | .call (.resume _ _) => False
  | _ => True

/-- The core is neither let go nor looked at. -/
def Op.Steady : Op A → Prop
  | .call (.resume _ _) | .call .poll => False
  | _ => True

/-- The core is not let go, and memory is not written. -/
def Op.Sparing : Op A → Prop
  | .call (.resume _ _) | .call (.write _ _) => False
  | _ => True

/-- The core is neither let go nor looked at, and memory is not written. -/
def Op.Quiet : Op A → Prop
  | .call (.resume _ _) | .call .poll | .call (.write _ _) => False
  | _ => True

/-- No access, or one that moves data: the core and the breakpoints are left alone. -/
def Op.Data : Op A → Prop
  | .call (.read _ _) | .call (.write _ _) | .call (.readReg _) | .call (.writeReg _ _) => True
  | .call _ => False
  | _ => True

/-- No access, or one that moves data and does not write memory. -/
def Op.Gentle : Op A → Prop
  | .call (.read _ _) | .call (.readReg _) | .call (.writeReg _ _) => True
  | .call _ => False
  | _ => True

/-- Neither an access to memory, nor a report of a block that is to be read or written or that does
    not fit, nor one of how far a transfer has come. -/
def Op.Apart : Op A → Prop
  | .call (.read ..) | .call (.write ..) | .note (.readingBuffer ..) | .note (.writingBuffer ..)
  | .note (.rangeWrapped ..) | .note (.progress ..) => False
  | _ => True

/-- Not that either, and no other call. -/
def Op.Offline : Op A → Prop
  | .call _ => False
  | op => op.Apart

/-- No access but a look at what the core is doing. -/
def Op.Glance : Op A → Prop
  | .call .poll => True
  | .call _ => False
  | _ => True

/-- Such a look, or a request to the host. -/
def Op.Watchful : Op A → Prop
  | .call .poll | .host _ => True
  | _ => False

/-- An operation of the kind `K` that asks nothing of the host. -/
def Op.Inwardly (K : Op A → Prop) : Op A → Prop
  | .host _ => False
  | op => K op

/-- What asks nothing of the host is of its kind all the same. -/
theorem Op.Inwardly.kind {K : Op A → Prop} {op : Op A} (h : op.Inwardly K) : K op := by
  cases op with
  | host r => exact h.elim
  | _ => exact h

/-- A larger kind is larger among the operations that ask nothing of the host. -/
theorem Op.Inwardly.mono {K L : Op A → Prop} (hKL : ∀ op, K op → L op) {op : Op A}
    (h : op.Inwardly K) : op.Inwardly L := by
  cases op with
  | host r => exact h.elim
  | _ => exact hKL _ h

/-- What does not resume or poll does not resume. -/
theorem Op.Steady.restful {op : Op A} (h : op.Steady) : op.Restful := by
  unfold Op.Steady at h
  unfold Op.Restful
  split <;> simp_all

/-- What does not resume or write does not resume. -/
theorem Op.Sparing.restful {op : Op A} (h : op.Sparing) : op.Restful := by
  unfold Op.Sparing at h
  unfold Op.Restful
  split <;> simp_all

/-- Among quiet operations there is no poll. -/
theorem Op.Quiet.steady {op : Op A} (h : op.Quiet) : op.Steady := by
  unfold Op.Quiet at h
  unfold Op.Steady
  split <;> simp_all

/-- Among quiet operations there is no write to memory. -/
theorem Op.Quiet.sparing {op : Op A} (h : op.Quiet) : op.Sparing := by
  unfold Op.Quiet at h
  unfold Op.Sparing
  split <;> simp_all

/-- Moving data neither resumes nor polls. -/
theorem Op.Data.steady {op : Op A} (h : op.Data) : op.Steady := by
  unfold Op.Data at h
  unfold Op.Steady
  split <;> simp_all

/-- A gentle operation moves data, if it is an access at all. -/
theorem Op.Gentle.data {op : Op A} (h : op.Gentle) : op.Data := by
  unfold Op.Gentle at h
  unfold Op.Data
  split <;> simp_all

/-- A gentle operation is quiet: registers may be written, memory is not. -/
theorem Op.Gentle.quiet {op : Op A} (h : op.Gentle) : op.Quiet := by
  unfold Op.Gentle at h
  unfold Op.Quiet
  split <;> simp_all

/-- Without calls there is no access to memory. -/
theorem Op.Offline.apart {op : Op A} (h : op.Offline) : op.Apart := by
  cases op with
  | call c => exact h.elim
  | _ => exact h

/-- A look at the core is no access to memory. -/
theorem Op.Watchful.apart {op : Op A} (h : op.Watchful) : op.Apart := by
  unfold Op.Watchful at h
  unfold Op.Apart
  split <;> simp_all

/-- Requests to the host are no access to the target. -/
theorem Op.Watchful.glance {op : Op A} (h : op.Watchful) : op.Glance := by
  unfold Op.Watchful at h
  unfold Op.Glance
  split <;> simp_all

/-- Without calls there is nothing but data that is moved. -/
theorem Op.Offline.data {op : Op A} (h : op.Offline) : op.Data := by
  cases op with
  | call c => exact h.elim
  | _ => trivial

/-- Looking at the core neither resumes it nor writes to memory. -/
theorem Op.Glance.sparing {op : Op A} (h : op.Glance) : op.Sparing := by
  unfold Op.Glance at h
  unfold Op.Sparing
  split <;> simp_all

/-- A dialogue that asks nothing of the host is of its kind all the same. -/
theorem Dialogue.Within.kind {K : Op A → Prop} {Q : α → Prop} {d : Dialogue A α}
    (h : d.Within (Op.Inwardly K) Q) : d.Within K Q :=
  h.weaken fun _ => Op.Inwardly.kind

/-- So is a computation on a state. -/
theorem Confined.kind {ε σ : Type} {K : Op A → Prop} {view : σ → τ}
    {x : ExceptT ε (StateT σ (Dialogue A)) α} (h : Confined (Op.Inwardly K) view x) :
    Confined K view x :=
  h.weaken fun _ => Op.Inwardly.kind

/-- A memory parameter apart from what is read back. -/
def MemParam.blank {w : Nat} (p : MemParam w) : MemParam w :=
  if p.direction.isOutput then { p with data := List.replicate p.data.length 0 } else p

/-- A register parameter apart from what is read back. -/
def RegParam.blank {w : Nat} (p : RegParam w) : RegParam w :=
  if p.direction.isOutput then { p with value := 0 } else p

/-- An image apart from what is read back. -/
def Image.blank {w : Nat} {ι : Type} (image : Image w ι) : Image w ι :=
  { image with mem := image.mem.map MemParam.blank, regs := image.regs.map RegParam.blank }

/-- A runner apart from what comes and goes in a run: the saved registers, the breakpoint, and
    what is read back. -/
def Runner.standing (r : Runner A) : Runner A :=
  { r with saved := [], breakpoint := none, image := r.image.blank }

/-- A runner apart from the saved registers and what is read back: the breakpoint is still seen. -/
def Runner.keeping (r : Runner A) : Runner A :=
  { r with saved := [], image := r.image.blank }

/-- The same, and whether its target is busy. -/
def Held.keeping (h : Held A) : Held A :=
  { h with runner := h.runner.keeping }

/-- A runner apart from what comes and goes in a run, and whether its target is busy. -/
def Held.standing (h : Held A) : Held A :=
  { h with runner := h.runner.standing }

/-- What a runner was made from: it never changes. -/
def Held.origin (h : Held A) : A.Img × List A.Reg :=
  (h.runner.image.blank, h.runner.regs)

/-- What does not come and go in a run includes what the runner was made from. -/
theorem Held.origin_of_standing {h h' : Held A} (hs : h'.standing = h.standing) :
    h'.origin = h.origin :=
  congrArg (fun h => (h.runner.image, h.runner.regs)) hs

open Dialogue

/-! ## Memory -/

/-- Reading a word is one read, and a question about the byte order. -/
theorem readWord_gentle (size : WordSize) (a : A.Addr) :
    (readWord size a).run.Only (Op.Inwardly Op.Gentle) := by
  rw [readWord]
  refine .andThen ⟨trivial, fun _ => trivial⟩ ?_
  rintro (e | bytes)
  · exact ⟨trivial, fun _ => trivial⟩
  · exact ⟨trivial, fun _ => ⟨trivial, fun _ => trivial⟩⟩

/-- Reading a word neither resumes the core nor polls it. -/
theorem readWord_steady (size : WordSize) (a : A.Addr) : (readWord size a).run.Only Op.Steady :=
  (readWord_gentle size a).kind.weaken fun _ h => h.data.steady

/-- Writing a word is one write, after a question about the byte order. -/
theorem writeWord_data (size : WordSize) (a : A.Addr) (v : Nat) :
    (writeWord size a v).run.Only (Op.Inwardly Op.Data) := by
  rw [writeWord]
  refine .andThen ⟨trivial, fun _ => trivial⟩ fun _ => ?_
  exact .andThen ⟨trivial, fun _ => trivial⟩ fun _ => .call trivial

/-- Writing a word neither resumes the core nor polls it. -/
theorem writeWord_steady (size : WordSize) (a : A.Addr) (v : Nat) :
    (writeWord size a v).run.Only Op.Steady :=
  (writeWord_data size a v).kind.weaken fun _ => Op.Data.steady

/-- A range is checked on the host; if it wraps around, there is a note. -/
theorem checkFits_gentle (a : A.Addr) (n : Nat) :
    (checkFits a n).run.Only (Op.Inwardly Op.Gentle) := by
  rw [checkFits]
  split
  · trivial
  · exact ⟨trivial, fun _ => trivial⟩

/-- Reading a block is one read at most: the range is checked before it. -/
theorem readBuffer_gentle (a : A.Addr) (n : Nat) :
    (readBuffer a n).run.Only (Op.Inwardly Op.Gentle) := by
  rw [readBuffer]
  refine .andThen ⟨trivial, fun _ => trivial⟩ fun _ => ?_
  split
  · trivial
  · exact .andThen (checkFits_gentle a n) fun _ => .call trivial

/-- Writing a block is one write at most: the range is checked before it. -/
theorem writeBuffer_data (a : A.Addr) (bs : List UInt8) :
    (writeBuffer a bs).run.Only (Op.Inwardly Op.Data) := by
  rw [writeBuffer]
  refine .andThen ⟨trivial, fun _ => trivial⟩ fun _ => ?_
  split
  · trivial
  · refine .andThen ?_ fun _ => .call trivial
    exact (checkFits_gentle a bs.length).weaken fun _ => .mono fun _ => Op.Gentle.data

namespace Runner

/-! ## Putting things in place, and putting them back -/

/-- A change to the saved registers, or to what is read back, is not seen by `keeping`. -/
theorem update_confined {K : Op A → Prop} {f : Runner A → Runner A}
    (hf : ∀ r, (f r).keeping = r.keeping) : Confined K Held.keeping (update f) :=
  .modify fun h => by rw [Held.keeping, hf, Held.keeping]

/-- What keeps the breakpoint as well keeps what does not come and go. -/
theorem standing_of_keeping {K : Op A → Prop} {x : RunM A α} (h : Confined K Held.keeping x) :
    Confined K Held.standing x :=
  h.through fun h => { h with runner := { h.runner with breakpoint := none } }

/-- Whether the core is halted is found out by one look. -/
theorem requireHalted_glance : (requireHalted (A := A)).run.Only (Op.Inwardly Op.Glance) := by
  refine .andThen (.call trivial) fun state => ?_
  split
  · exact ⟨trivial, fun _ => trivial⟩
  · trivial

/-- Disarming changes the breakpoint, and nothing else. -/
theorem disarm_quiet {view : Held A → τ}
    (hv : ∀ h b, view { h with runner.breakpoint := b } = view h) :
    Confined (Op.Inwardly Op.Quiet) view (disarm (A := A)) := by
  refine .bind .get fun h => ?_
  dsimp only
  split
  · exact .pure _
  · refine .bind (.modify fun h => hv h _) fun _ => .bind (.feature trivial) fun _ => ?_
    split
    · refine .bind (.call trivial) fun _ => ?_
      split
      · exact .note trivial
      · exact .pure _
    · exact .pure _

/-- Disarming neither resumes the core nor polls it. -/
theorem disarm_confined {view : Held A → τ}
    (hv : ∀ h b, view { h with runner.breakpoint := b } = view h) :
    Confined Op.Steady view (disarm (A := A)) :=
  (disarm_quiet hv).kind.weaken fun _ => Op.Quiet.steady

/-- Disarming leaves alone what does not come and go in a run. -/
theorem disarm_steady : Confined Op.Steady Held.standing (disarm (A := A)) :=
  disarm_confined fun _ _ => rfl

/-- Registers are written one after the other, and go on being written after a failure. -/
theorem writeEach_gentle (regs : List (A.Reg × A.Addr)) :
    (writeEach regs).Only (Op.Inwardly Op.Gentle) := by
  induction regs with
  | nil => trivial
  | cons entry rest ih =>
      refine ⟨trivial, ?_⟩
      -- the rest is written also after a failure, which is only reported in the end
      rintro (e | _)
      · exact ⟨trivial, fun _ => Within.bind (d := writeEach rest) (ih.mono fun _ _ => trivial)⟩
      · exact ih

/-- The saved registers are written back, whatever becomes of them. -/
theorem restoreContext_gentle :
    Confined (Op.Inwardly Op.Gentle) Held.keeping (restoreContext (A := A)) := by
  refine .bind .get fun h => .bind (update_confined fun _ => rfl) fun _ => ?_
  exact .bind (.liftDialogue (writeEach_gentle _)) fun _ => .ofExcept _

/-- Putting registers back is quiet. -/
theorem restoreContext_quiet :
    Confined (Op.Inwardly Op.Quiet) Held.standing (restoreContext (A := A)) :=
  (standing_of_keeping restoreContext_gentle).weaken fun _ => .mono fun _ => Op.Gentle.quiet

/-- Putting registers back neither resumes the core nor polls it. -/
theorem restoreContext_steady : Confined Op.Steady Held.standing (restoreContext (A := A)) :=
  restoreContext_quiet.kind.weaken fun _ => Op.Quiet.steady

/-- Saving registers reads them. -/
theorem saveRegs_gentle (regs : List A.Reg) :
    Confined (Op.Inwardly Op.Gentle) Held.keeping (saveRegs regs) := by
  induction regs with
  | nil => exact .pure _
  | cons reg rest ih =>
      refine .bind .get fun h => ?_
      split
      · exact .bind (.call trivial) fun _ => .bind (update_confined fun _ => rfl) fun _ => ih
      · exact ih

/-- Memory parameters are written block by block, up to the first failure. -/
theorem writeMem_data (params : List (MemParam A.width)) :
    (writeMem params).run.Only (Op.Inwardly Op.Data) := by
  induction params with
  | nil => trivial
  | cons p rest ih =>
      rw [writeMem]
      split
      · exact .andThen (writeBuffer_data _ _) fun _ => ih
      · exact ih

/-- Writing memory parameters neither resumes the core nor polls it. -/
theorem writeMem_steady (params : List (MemParam A.width)) :
    (writeMem params).run.Only Op.Steady :=
  (writeMem_data params).kind.weaken fun _ => Op.Data.steady

/-- Register parameters are written one by one, up to the first failure. -/
theorem writeRegs_data (params : List (RegParam A.width × A.Reg)) :
    (writeRegs params).run.Only (Op.Inwardly Op.Data) := by
  induction params with
  | nil => trivial
  | cons p rest ih =>
      obtain ⟨p, reg⟩ := p
      rw [writeRegs]
      split
      · exact .andThen (.call trivial) fun _ => ih
      · exact ih

/-- Writing register parameters neither resumes the core nor polls it. -/
theorem writeRegs_steady (params : List (RegParam A.width × A.Reg)) :
    (writeRegs params).run.Only Op.Steady :=
  (writeRegs_data params).kind.weaken fun _ => Op.Data.steady

/-- So are the registers that the back end asks for. -/
theorem writeContext_data (regs : List (A.Reg × A.Addr)) :
    (writeContext regs).run.Only (Op.Inwardly Op.Data) := by
  induction regs with
  | nil => trivial
  | cons entry rest ih => exact .andThen (.call trivial) fun _ => ih

/-- Writing those neither resumes the core nor polls it. -/
theorem writeContext_steady (regs : List (A.Reg × A.Addr)) :
    (writeContext regs).run.Only Op.Steady :=
  (writeContext_data regs).kind.weaken fun _ => Op.Data.steady

/-- Arming changes the breakpoint, and nothing else. -/
theorem arm_confined {view : Held A → τ}
    (hv : ∀ h b, view { h with runner.breakpoint := b } = view h) :
    Confined (Op.Inwardly Op.Steady) view (arm (A := A)) := by
  refine .bind .get fun h => ?_
  dsimp only
  split
  · refine .bind (.feature trivial) fun _ => ?_
    split
    · exact .throw_bind _ _
    · refine .bind (.call trivial) fun _ => ?_
      split
      · exact .bind (.note trivial) fun _ => .throw_bind _ _
      · exact .modify fun h => hv h _
  · exact .pure _

/-- Loading saves, writes and arms, in this order, and none of that resumes or polls. -/
theorem load_confined : Confined (Op.Inwardly Op.Steady) Held.standing (load (A := A)) := by
  have hsteady : ∀ op : Op A, op.Inwardly Op.Data → op.Inwardly Op.Steady :=
    fun _ => .mono fun _ => Op.Data.steady
  have hsave := fun regs => (standing_of_keeping (saveRegs_gentle (A := A) regs)).weaken
    fun op h => hsteady op (h.mono fun _ => Op.Gentle.data)
  -- in the order of the program: the registers, the parameters, the context, the breakpoint
  refine .bind (.modify fun _ => rfl) fun _ => .bind .get fun h => ?_
  refine .bind (hsave _) fun _ => .bind (.lift ((writeMem_data _).weaken hsteady)) fun _ => ?_
  refine .bind (.lift ((writeRegs_data _).weaken hsteady)) fun _ => ?_
  refine .bind (.lift ((writeContext_data _).weaken hsteady)) fun _ => ?_
  exact arm_confined fun _ _ => rfl

/-- The same without regard to the host. -/
theorem load_steady : Confined Op.Steady Held.standing (load (A := A)) :=
  load_confined.kind

/-! ## After the halt -/

/-- The data of a memory parameter that is read back does not count, only its length. -/
theorem blank_mem {w : Nat} {p : MemParam w} {bs : List UInt8} (hp : p.direction.isOutput = true)
    (hl : bs.length = p.data.length) : ({ p with data := bs } : MemParam w).blank = p.blank := by
  simp only [MemParam.blank, hp, hl, if_true]

/-- The value of a register parameter that is read back does not count. -/
theorem blank_reg {w : Nat} {p : RegParam w} (hp : p.direction.isOutput = true) (v : BitVec w) :
    ({ p with value := v } : RegParam w).blank = p.blank := by
  simp only [RegParam.blank, hp, if_true]

/-- Reading memory parameters back changes what is read back, and nothing else. -/
theorem readMem_gentle (params : List (MemParam A.width)) :
    (readMem params).Within (Op.Inwardly Op.Gentle)
      fun r => r.2.map MemParam.blank = params.map MemParam.blank := by
  induction params with
  | nil => rfl
  | cons p rest ih =>
      rw [readMem]
      split
      · next hp =>
        refine Within.bind ((readBuffer_gentle _ _).mono ?_)
        rintro (e | bytes) _
        · rfl
        · refine Within.bind (ih.mono fun r hr => ?_)
          exact congrArg₂ List.cons (blank_mem hp bytes.property) hr
      · exact Within.bind (ih.mono fun r hr => congrArg (List.cons _) hr)

/-- So does reading register parameters back. -/
theorem readRegs_gentle (params : List (RegParam A.width)) (regs : List A.Reg) :
    (readRegs params regs).Within (Op.Inwardly Op.Gentle)
      fun r => r.2.map RegParam.blank = params.map RegParam.blank := by
  induction params generalizing regs with
  | nil => cases regs <;> rfl
  | cons p rest ih =>
      cases regs with
      | nil => rfl
      | cons reg regs =>
          rw [readRegs]
          split
          · next hp =>
            refine ⟨trivial, ?_⟩
            rintro (e | value)
            · rfl
            · refine Within.bind (d := readRegs rest regs) ((ih regs).mono fun r hr => ?_)
              exact congrArg₂ List.cons (blank_reg hp value) hr
          · exact Within.bind ((ih regs).mono fun r hr => congrArg (List.cons _) hr)

/-- What is left of collecting once the breakpoint is gone. -/
def gather : RunM A Unit := do
  let r := (← get).runner
  let pc ← call (.readReg A.pc)
  if r.image.exit ≠ 0 ∧ pc ≠ r.image.exit then
    note (.unexpectedHalt pc.toNat r.image.exit.toNat)
    throw (.unexpectedExit pc.toNat)
  let (result, mem) ← readMem r.image.mem
  update ({ · with image.mem := mem })
  MonadExcept.ofExcept result
  let (result, regs) ← readRegs r.image.regs r.regs
  update ({ · with image.regs := regs })
  MonadExcept.ofExcept result

/-- Collecting begins with the breakpoint. -/
theorem collect_eq : collect (A := A) = (do disarm; gather) := rfl

/-- Collecting fills in what is read back. -/
theorem gather_gentle : Confined (Op.Inwardly Op.Gentle) Held.keeping (gather (A := A)) := by
  intro h
  refine .get ⟨trivial, ?_⟩
  rintro (e | pc)
  · exact rfl
  · show ((if _ then _ else _ : RunM A Unit).run.run h).Within _ _
    split
    · exact ⟨trivial, fun _ => rfl⟩
    · -- the memory parameters first; what was read is kept also if a later one cannot be read
      refine .seq (.liftDialogue ((readMem_gentle _).mono ?_))
      rintro ⟨result, mem⟩ hmem
      have hk₁ : Held.keeping { h with runner.image.mem := mem } = h.keeping := by
        simp only [Held.keeping, Runner.keeping, Image.blank, hmem]
      cases result with
      | error e => exact hk₁
      | ok _ =>
          refine .seq (.seq ?_)
          -- then the register parameters, in the runner as it is by now
          show ((liftM (readRegs _ _) >>= _ : RunM A Unit).run.run _).Within _ _
          refine .seq (.liftDialogue ((readRegs_gentle _ _).mono ?_))
          rintro ⟨result, regs⟩ hregs
          have hk₂ : Held.keeping { h with runner.image.mem := mem, runner.image.regs := regs } =
              h.keeping := by
            rw [← hk₁]
            simp only [Held.keeping, Runner.keeping, Image.blank, hregs]
          cases result with
          | error e => exact hk₂
          | ok _ => exact hk₂

/-- Collecting is quiet: the breakpoint goes, and what is read back is filled in. -/
theorem collect_quiet : Confined (Op.Inwardly Op.Quiet) Held.standing (collect (A := A)) := by
  rw [collect_eq]
  exact .bind (disarm_quiet fun _ _ => rfl) fun _ =>
    (standing_of_keeping gather_gentle).weaken fun _ => .mono fun _ => Op.Gentle.quiet

/-- Watching looks at the core, and does nothing else to the target. -/
theorem watch_watchful (deadline interval patience : Nat) :
    (watch deadline interval patience : Dialogue A Watch).Only Op.Watchful := by
  induction patience with
  | zero => trivial
  | succ patience ih =>
      refine ⟨trivial, ?_⟩
      rintro (e | state)
      · trivial
      · cases state with
        | halted => trivial
        | _ =>
            -- not halted: the clock is asked, and then the host sleeps and may be shutting down
            refine ⟨trivial, fun now => ?_⟩
            show Within _ (if deadline ≤ UInt64.toNat now then _ else _) _
            split
            · trivial
            · refine ⟨trivial, fun _ => ⟨trivial, fun _ => ⟨trivial, ?_⟩⟩⟩
              rintro (_ | _)
              · exact ih
              · trivial

/-- Watching is made of looks, as far as the target can tell. -/
theorem watch_glance (deadline interval patience : Nat) :
    (watch deadline interval patience : Dialogue A Watch).Only Op.Glance :=
  (watch_watchful deadline interval patience).weaken fun _ => Op.Watchful.glance

/-- Watching neither resumes the core nor writes to memory. -/
theorem watch_sparing (deadline interval patience : Nat) :
    (watch deadline interval patience : Dialogue A Watch).Only Op.Sparing :=
  (watch_glance deadline interval patience).weaken fun _ => Op.Glance.sparing

end Runner

namespace Engine

variable {e : Engine}

/-! ## Moving data -/

/-- Nothing is done for an address. -/
theorem address_only {K : Op A → Prop} (n : Nat) : (address n : Link A A.Addr).run.Only K := by
  rw [address]
  cases A.addr? n <;> trivial

/-- Finding an address is no access at all. -/
theorem address_data (n : Nat) : (address n : Link A A.Addr).run.Only (Op.Inwardly Op.Data) :=
  address_only n

/-- Nor is it a look at the core. -/
theorem address_steady (n : Nat) : (address n : Link A A.Addr).run.Only Op.Steady :=
  (address_data n).kind.weaken fun _ => Op.Data.steady

/-- A pointer word is written as a word, at the address it is found at. -/
theorem putPointer_data (place value : Nat) :
    (putPointer place value : Link A Unit).run.Only (Op.Inwardly Op.Data) :=
  .andThen (address_data place) fun _ => writeWord_data _ _ _

/-- Writing a pointer word neither resumes the core nor polls it. -/
theorem putPointer_steady (place value : Nat) :
    (putPointer place value : Link A Unit).run.Only Op.Steady :=
  (putPointer_data place value).kind.weaken fun _ => Op.Data.steady

/-- Nothing is said about the progress of a transfer. -/
abbrev Unseen : Progress → Unit := fun _ => ()

/-- A look at the partner's pointer is the reading of a word. -/
theorem partnerPointer_data (flow : Flow) (place : A.Addr) :
    Confined Op.Data Unseen (partnerPointer flow place) := by
  refine .bind (.outcome (.lift ((readWord_gentle _ _).kind.weaken fun _ => Op.Gentle.data))) ?_
  rintro (e | ptr)
  · exact .bind (.note trivial) fun _ => .throw _
  · exact .pure _

/-- A pointer is checked on the host, with a note if it is refused. -/
theorem checkPointer_inward (flow : Flow) (ptr : Nat) :
    Confined (A := A) (Op.Inwardly Op.Offline) Unseen (e.checkPointer flow ptr) := by
  rw [checkPointer]
  split
  · exact .bind (.note trivial) fun _ => .throw_bind _ _
  · split
    · exact .bind (.note trivial) fun _ => .throw _
    · exact .pure _

/-- The check of a pointer is no access to the target. -/
theorem checkPointer_offline (flow : Flow) (ptr : Nat) :
    Confined (A := A) Op.Offline Unseen (e.checkPointer flow ptr) :=
  (checkPointer_inward flow ptr).kind

/-- Giving way is between the loop and the host. -/
theorem giveWay_offline : Confined (A := A) Op.Offline Unseen giveWay := by
  refine .bind (.host trivial) fun _ => .bind (.host trivial) fun shutdown => ?_
  split
  · exact .throw _
  · exact .pure _

/-- So is backing off. -/
theorem backOff_offline : Confined (A := A) Op.Offline Unseen e.backOff :=
  .bind (.host trivial) fun _ => giveWay_offline

/-- The check of a pointer moves no data. -/
theorem checkPointer_data (flow : Flow) (ptr : Nat) :
    Confined (A := A) Op.Data Unseen (e.checkPointer flow ptr) :=
  (checkPointer_offline flow ptr).weaken fun _ => Op.Offline.data

/-- Giving way moves no data. -/
theorem giveWay_data : Confined (A := A) Op.Data Unseen giveWay :=
  giveWay_offline.weaken fun _ => Op.Offline.data

/-- Backing off moves no data. -/
theorem backOff_data : Confined (A := A) Op.Data Unseen e.backOff :=
  backOff_offline.weaken fun _ => Op.Offline.data

/-- Counting asks nothing at all. -/
theorem count_data (f : Stats → Stats) : Confined (A := A) Op.Data Unseen (count f) :=
  .modify fun _ => rfl

/-- A write reads the partner's pointer, writes pieces and writes its own pointer: all of that is
    data. -/
theorem feed_data (wpPlace rpPlace : A.Addr) (wp : Nat) (rest : List UInt8) (stalls : Nat) :
    Confined Op.Data Unseen (e.feed wpPlace rpPlace wp rest stalls) := by
  induction wp, rest, stalls using Engine.feed.induct e with
  | case1 wp stalls =>
      rw [feed, dif_pos rfl]
      exact .pure _
  | case2 wp rest stalls hne ihStall ihPiece =>
      rw [feed, dif_neg hne]
      refine .bind (partnerPointer_data _ _) fun rp => .bind .get fun _ => ?_
      refine .bind (.note trivial) fun _ => .bind (checkPointer_data _ _) fun _ => ?_
      -- no room: the loop backs off, or gives up
      split
      · refine .bind backOff_data fun _ => ?_
        split
        · next ht => exact .bind (count_data _) fun _ => ihStall rp ht
        · exact .bind (.note trivial) fun _ => .throw _
      · -- room: a piece, and the pointer behind it
        next hs =>
        refine .bind (.lift (address_data _).kind) fun _ => ?_
        refine .bind (.lift (writeBuffer_data _ _).kind) fun _ => .bind (count_data _) fun _ => ?_
        refine .bind (.lift (writeWord_data _ _ _).kind) fun _ => ?_
        exact .bind giveWay_data fun _ => ihPiece rp hs

/-- So it is from the first address on. -/
theorem feedAll_data (data : List UInt8) : Confined (A := A) Op.Data Unseen (e.feedAll data) :=
  .bind (.lift (address_data _).kind) fun _ => .bind (.lift (address_data _).kind) fun _ =>
    feed_data _ _ _ _ _

/-- A whole write loop neither resumes the core nor polls it. -/
theorem feedAll_steady (data : List UInt8) : Confined (A := A) Op.Steady Unseen (e.feedAll data) :=
  (feedAll_data data).weaken fun _ => Op.Data.steady

/-- A read does the same with the pointers, and reads its pieces. -/
theorem drain_data (wpPlace rpPlace : A.Addr) (rp rest stalls : Nat) :
    Confined Op.Data Unseen (e.drain wpPlace rpPlace rp rest stalls) := by
  induction rp, rest, stalls using Engine.drain.induct e with
  | case1 rp stalls =>
      rw [drain, dif_pos rfl]
      exact .pure _
  | case2 rp rest stalls hne ihStall ihPiece =>
      rw [drain, dif_neg hne]
      refine .bind (partnerPointer_data _ _) fun wp => .bind .get fun _ => ?_
      refine .bind (.note trivial) fun _ => .bind (checkPointer_data _ _) fun _ => ?_
      -- no data: the loop backs off, or gives up
      split
      · refine .bind backOff_data fun _ => ?_
        split
        · next ht => exact .bind (count_data _) fun _ => ihStall wp ht
        · exact .bind (.note trivial) fun _ => .throw _
      · -- data: a piece, and the pointer behind it
        next hs =>
        refine .bind (.lift (address_data _).kind) fun _ => ?_
        refine .bind (.lift ?_) fun _ => ?_
        · exact (readBuffer_gentle _ _).kind.weaken fun _ => Op.Gentle.data
        refine .bind (.modify fun _ => rfl) fun _ => .bind (count_data _) fun _ => ?_
        refine .bind (.lift (writeWord_data _ _ _).kind) fun _ => ?_
        exact .bind giveWay_data fun _ => ihPiece wp hs

/-- So it does from the first address on. -/
theorem drainAll_data (len : Nat) : Confined (A := A) Op.Data Unseen (e.drainAll len) :=
  .bind (.lift (address_data _).kind) fun _ => .bind (.lift (address_data _).kind) fun _ =>
    drain_data _ _ _ _ _

/-- A whole read loop neither resumes the core nor polls it. -/
theorem drainAll_steady (len : Nat) : Confined (A := A) Op.Steady Unseen (e.drainAll len) :=
  (drainAll_data len).weaken fun _ => Op.Data.steady

end Engine

end DebugLink
