import DebugLink.Proofs.Area.Tiling
import DebugLink.Proofs.Runner.Apart
import DebugLink.Proofs.Runner.Failures
import DebugLink.Proofs.Path

/-!
# Accesses inside the address space

A block of memory is checked before it is accessed; a word is not.  So there are two reasons why no
access leaves the address space: what does not fit was refused before (`Arch.fits_iff`), and a
word that begins on a word ends in the address space, which is made of words.

* `Op.InSpace` says it of one operation.  All that a runner does to its target is `InSpace`,
  WHATEVER THE IMAGE SAYS, since blocks are all that it accesses.
* `Honest` says that what does not fit is what the failure names: of all reports of accesses,
  one that oversteps the address space (`Op.Oversteps`) is the last.
* `start_fitting` and `wait_fitting`: no run succeeds whose parameters do not fit.
-/

namespace DebugLink

open Dialogue

variable {A : Arch} {α β τ σ : Type}

/-- A block fits if its last address is one. -/
theorem Arch.fits_iff {w : Nat} {a : BitVec w} {n : Nat} :
    Arch.Fits a n ↔ a.toNat + n ≤ 2 ^ w := by
  have ha := a.isLt
  rw [Arch.Fits, Areas.le_top_iff]
  omega

/-- An access covers something, and does not run past the end of the address space. -/
def Op.InSpace : Op A → Prop
  | .call (.read a n) => 0 < n ∧ a.toNat + n ≤ 2 ^ A.width
  | .call (.write a bs) => 0 < bs.length ∧ a.toNat + bs.length ≤ 2 ^ A.width
  | _ => True

/-- Of `n` bytes from `a` on it is reported that they are to be read or written, but run past the
    end of the address space; or that they were refused for it. -/
def Op.Oversteps (a n : Nat) : Op A → Prop
  | .note (.readingBuffer len address) | .note (.writingBuffer len address) =>
      address = a ∧ len = n ∧ 2 ^ A.width < a + n
  | .note (.rangeWrapped address len) => address = a ∧ len = n
  | _ => False

/-- No report of how far a transfer has come. -/
def Op.Mute : Op A → Prop
  | .note (.progress ..) => False
  | _ => True

/-- What is apart from memory accesses no block, so none that runs past the end. -/
theorem Op.Apart.inSpace {op : Op A} (h : op.Apart) : op.InSpace := by
  unfold Op.Apart at h
  unfold Op.InSpace
  split <;> simp_all

/-- Nor does it report one. -/
theorem Op.Apart.not_oversteps {op : Op A} (h : op.Apart) {a n : Nat} : ¬ op.Oversteps a n := by
  unfold Op.Apart at h
  unfold Op.Oversteps
  split <;> simp_all

/-- Nor does it report how far a transfer has come. -/
theorem Op.Apart.mute {op : Op A} (h : op.Apart) : op.Mute := by
  unfold Op.Apart at h
  unfold Op.Mute
  split <;> simp_all

/-- Neither an access out of the address space nor a report of one. -/
structure Op.Safe (op : Op A) : Prop where
  inSpace : op.InSpace
  holds : ∀ a n, ¬ op.Oversteps a n

/-- So it is safe. -/
theorem Op.Apart.safe {op : Op A} (h : op.Apart) : op.Safe :=
  ⟨h.inSpace, fun _ _ => h.not_oversteps⟩

/-- What a runner does: any block that it accesses was checked before. -/
structure Op.Checked (op : Op A) : Prop where
  inSpace : op.InSpace
  mute : op.Mute

/-- So there is nothing to be checked. -/
theorem Op.Apart.checked {op : Op A} (h : op.Apart) : op.Checked :=
  ⟨h.inSpace, h.mute⟩

/-- A part of a run that is apart from memory accesses no block. -/
theorem Confined.checked {ε : Type} {view : σ → τ} {x : ExceptT ε (StateT σ (Dialogue A)) α}
    (hx : Confined Op.Apart view x) : Confined Op.Checked view x :=
  hx.weaken fun _ => Op.Apart.checked

/-! ## Blocks -/

/-- A block is read only after it was found to fit. -/
theorem readBuffer_checked (a : A.Addr) (n : Nat) : (readBuffer a n).run.Only Op.Checked :=
  readBuffer_within ⟨trivial, trivial⟩ (fun _ => ⟨trivial, trivial⟩)
    fun hpos hfits => ⟨⟨hpos, Arch.fits_iff.mp hfits⟩, trivial⟩

/-- A block is written only after it was found to fit. -/
theorem writeBuffer_checked (a : A.Addr) (bs : List UInt8) :
    (writeBuffer a bs).run.Only Op.Checked :=
  writeBuffer_within ⟨trivial, trivial⟩ (fun _ => ⟨trivial, trivial⟩)
    fun hpos hfits => ⟨⟨hpos, Arch.fits_iff.mp hfits⟩, trivial⟩

/-- A block that is known to fit. -/
theorem readBuffer_safe {a : A.Addr} {n : Nat} (hfits : a.toNat + n ≤ 2 ^ A.width) :
    (readBuffer a n).run.Only Op.Safe := by
  refine readBuffer_within ⟨trivial, ?_⟩ (fun h => absurd (Arch.fits_iff.mpr hfits) h)
    fun hpos _ => ⟨⟨hpos, hfits⟩, fun _ _ => id⟩
  rintro _ _ ⟨rfl, rfl, hover⟩
  exact absurd hfits (Nat.not_le_of_lt hover)

/-- A block that is known to fit may be written. -/
theorem writeBuffer_safe {a : A.Addr} {bs : List UInt8}
    (hfits : a.toNat + bs.length ≤ 2 ^ A.width) : (writeBuffer a bs).run.Only Op.Safe := by
  refine writeBuffer_within ⟨trivial, ?_⟩ (fun h => absurd (Arch.fits_iff.mpr hfits) h)
    fun hpos _ => ⟨⟨hpos, hfits⟩, fun _ _ => id⟩
  rintro _ _ ⟨rfl, rfl, hover⟩
  exact absurd hfits (Nat.not_le_of_lt hover)

namespace Runner

/-! ## What a runner accesses -/

/-- Memory parameters are blocks. -/
theorem writeMem_checked (params : List (MemParam A.width)) :
    (writeMem params).run.Only Op.Checked := by
  induction params with
  | nil => trivial
  | cons p rest ih =>
      rw [writeMem]
      split
      · exact .andThen (writeBuffer_checked _ _) fun _ => ih
      · exact ih

/-- So they are on the way back. -/
theorem readMem_checked (params : List (MemParam A.width)) :
    (readMem params).Only Op.Checked := by
  induction params with
  | nil => trivial
  | cons p rest ih =>
      rw [readMem]
      split
      · refine Within.bind ((readBuffer_checked _ _).mono ?_)
        rintro (err | bytes) _
        · trivial
        · exact Within.bind (ih.mono fun _ _ => trivial)
      · exact Within.bind (ih.mono fun _ _ => trivial)

/-- All that a launch does to memory is to write parameters. -/
theorem launch_checked : Confined (A := A) Op.Checked (fun _ => ()) launch := by
  have hregs := fun params => (writeRegs_apart (A := A) params).weaken fun _ => Op.Apart.checked
  have hcontext := fun regs => (writeContext_apart (A := A) regs).weaken fun _ => Op.Apart.checked
  have hload : Confined (A := A) Op.Checked (fun _ => ()) load := by
    refine .bind (.modify fun _ => rfl) fun _ => .bind .get fun h => ?_
    refine .bind (saveRegs_apart _).checked fun _ => ?_
    refine .bind (.lift (writeMem_checked _)) fun _ => .bind (.lift (hregs _)) fun _ => ?_
    exact .bind (.lift (hcontext _)) fun _ => arm_apart.checked
  exact .bind hload fun _ => .bind .get fun _ => .bind (.note ⟨trivial, trivial⟩) fun _ =>
    .call ⟨trivial, trivial⟩

/-- A start that fails puts back registers and the breakpoint, and no memory. -/
theorem start_checked : Confined (A := A) Op.Checked (fun _ => ()) start := by
  refine .bind .get fun h => ?_
  dsimp only
  split
  · exact .bind (.note ⟨trivial, trivial⟩) fun _ => .throw_bind _ _
  · split
    · exact .throw_bind _ _
    · refine .bind (.lift (requireHalted_apart.weaken fun _ => Op.Apart.checked)) fun _ => ?_
      refine .bind (.outcome launch_checked) ?_
      rintro (e | _)
      · -- a launch that failed is cleaned up after
        refine .bind (.outcome disarm_apart.checked) fun _ => ?_
        exact .bind (.outcome restoreContext_apart.checked) fun _ => .throw _
      · exact .modify fun _ => rfl

/-- All that collecting does to memory is to read parameters back. -/
theorem gather_checked : Confined (A := A) Op.Checked (fun _ => ()) gather := by
  refine .bind .get fun h => .bind (.call ⟨trivial, trivial⟩) fun pc => ?_
  split
  · exact .bind (.note ⟨trivial, trivial⟩) fun _ => .throw_bind _ _
  · refine .bind (.liftDialogue (readMem_checked _)) fun r => ?_
    refine .bind (.modify fun _ => rfl) fun _ => ?_
    refine .bind (.ofExcept _) fun _ => .bind (.liftDialogue ?_) fun r' => ?_
    · exact (readRegs_apart _ _).weaken fun _ => Op.Apart.checked
    · exact .bind (.modify fun _ => rfl) fun _ => .ofExcept _

/-- So it is with all that comes after the halt. -/
theorem finish_checked : Confined (A := A) Op.Checked (fun _ => ()) finish := by
  have hcollect : Confined (A := A) Op.Checked (fun _ => ()) collect := by
    rw [collect_eq]
    exact .bind disarm_apart.checked fun _ => gather_checked
  refine .bind (.outcome hcollect) fun collected => ?_
  refine .bind (.outcome restoreContext_apart.checked) fun restored => ?_
  split
  · exact .modify fun _ => rfl
  · exact .bind (.modify fun _ => rfl) fun _ => .throw _

/-- A wait watches the core, and then collects. -/
theorem wait_checked (patience timeout : Nat) :
    Confined (A := A) Op.Checked (fun _ => ()) (wait patience timeout) := by
  refine .bind .get fun h => ?_
  dsimp only
  split
  · exact .throw_bind _ _
  · refine .bind (.host ⟨trivial, trivial⟩) fun now => .bind (.liftDialogue ?_) fun watched => ?_
    · exact (watch_apart _ _ _).weaken fun _ => Op.Apart.checked
    · cases watched with
      | undecided => exact .pure _
      | failed e => exact .throw _
      | shutdown => exact .throw _
      | expired =>
        refine .bind (.note ⟨trivial, trivial⟩) fun _ => ?_
        exact .bind (.modify fun _ => rfl) fun _ => .throw _
      | halted => exact .bind finish_checked fun _ => .pure _

/-- A run is a start and a wait. -/
theorem run_checked (patience : Nat) :
    Confined (A := A) Op.Checked (fun _ => ()) (Runner.run patience) :=
  .bind start_checked fun _ => .bind .get fun _ => wait_checked _ _

end Runner

/-! ## What does not fit is what a failure names -/

/-- If something in `log` oversteps the address space, then that is the failure. -/
def Transcript.Candid (log : Transcript A) (r : Except Error α) : Prop :=
  ∀ event ∈ log, ∀ a n, event.op.Oversteps a n → r = .error (.addressWrap a n)

namespace Transcript.Candid

variable {log l₁ l₂ : Transcript A} {r : Except Error α}

/-- Where memory was not accessed, nothing oversteps. -/
theorem of_apart (h : ∀ event ∈ log, event.op.Apart) : log.Candid r :=
  fun event hm _ _ hover => absurd hover (h event hm).not_oversteps

/-- Where all blocks fitted, nothing oversteps. -/
theorem of_safe (h : ∀ event ∈ log, event.op.Safe) : log.Candid r :=
  fun event hm a n hover => absurd hover ((h event hm).holds a n)

/-- What did not fail had everything fit. -/
theorem of_ok {a : α} (h : log.Candid (.ok a)) {r : Except Error β} : log.Candid r :=
  fun event hm b n hover => absurd (h event hm b n hover) nofun

/-- A failure is handed on, whatever would have been the result. -/
theorem of_error {err : Error} (h : log.Candid (.error err : Except Error α)) :
    log.Candid (.error err : Except Error β) :=
  fun event hm b n hover => congrArg Except.error (Except.error.inj (h event hm b n hover))

/-- Two parts that answer for one result. -/
theorem append (h₁ : l₁.Candid r) (h₂ : l₂.Candid r) : Candid (l₁ ++ l₂) r :=
  fun event hm => (List.mem_append.mp hm).elim (h₁ event) (h₂ event)

end Transcript.Candid

open Transcript

/-- Whatever is asked and answered, a failure names what did not fit. -/
def Honest (x : ExceptT Error (StateT σ (Dialogue A)) α) : Prop :=
  ∀ s log y, (x.run.run s).Path log y → log.Candid y.1

/-- The same, where there is no local state. -/
def HonestAlone (x : Link A α) : Prop :=
  ∀ log r, x.run.Path log r → log.Candid r

namespace HonestAlone

/-- A part of a run that is apart from memory has nothing to name. -/
theorem of_only {x : Link A α} (hx : x.run.Only Op.Apart) : HonestAlone x :=
  fun _ _ run => .of_apart (hx.path run).1

/-- If the first part fails, nothing comes after it; if it does not, everything in it fitted. -/
theorem bind {x : Link A α} {f : α → Link A β} (hx : HonestAlone x)
    (hf : ∀ a, HonestAlone (f a)) : HonestAlone (x >>= f) := by
  intro log r run
  rw [ExceptT.run_bind] at run
  obtain ⟨l₁, l₂, err | a, rfl, h₁, h₂⟩ := path_bind.mp run
  · obtain ⟨rfl, rfl⟩ := path_done.mp h₂
    rw [List.append_nil]
    exact (hx _ _ h₁).of_error
  · exact (hx _ _ h₁).of_ok.append (hf a _ _ h₂)

end HonestAlone

namespace Honest

variable {x : ExceptT Error (StateT σ (Dialogue A)) α}
  {f : α → ExceptT Error (StateT σ (Dialogue A)) β}

/-- A part of a run that is apart from memory has nothing to name. -/
theorem of_confined (hx : Confined Op.Apart (fun _ => ()) x) : Honest x :=
  fun s _ _ run => .of_apart ((hx s).path run).1

/-- Without local state it has as much to name. -/
theorem lift {x : Link A α} (hx : HonestAlone x) :
    Honest (liftM x : ExceptT Error (StateT σ (Dialogue A)) α) := by
  intro s log y run
  obtain ⟨r, rfl, hpath⟩ := path_lift.mp run
  exact hx log r hpath

/-- If the first part fails, nothing comes after it; if it does not, everything in it fitted. -/
theorem bind (hx : Honest x) (hf : ∀ a, Honest (f a)) : Honest (x >>= f) := by
  intro s log y run
  rcases path_seq run with ⟨l₁, l₂, a, s', rfl, h₁, h₂⟩ | ⟨err, s', rfl, h₁⟩
  · exact (hx _ _ _ h₁).of_ok.append (hf a _ _ _ h₂)
  · exact (hx _ _ _ h₁).of_error

/-- A first part that hands its failure over, and a second one that goes on and then fails with
    it. -/
theorem handle {γ : Type} (out : α → Except Error γ)
    (hx : ∀ s log y, (x.run.run s).Path log y → ∃ a, y.1 = .ok a ∧ log.Candid (out a))
    (hf : ∀ a, Honest (f a))
    (herr : ∀ a err, out a = .error err → ∀ s, ((f a).run.run s).Ends fun y => y.1 = .error err) :
    Honest (x >>= f) := by
  intro s log y run
  rcases path_seq run with ⟨l₁, l₂, a, s', rfl, h₁, h₂⟩ | ⟨err, s', rfl, h₁⟩
  · obtain ⟨a', heq, hcandid⟩ := hx _ _ _ h₁
    obtain rfl := Except.ok.inj heq
    refine Candid.append ?_ (hf a _ _ _ h₂)
    -- the failure that is handed over is the one that the second part ends with
    cases hout : out a with
    | ok _ =>
        rw [hout] at hcandid
        exact hcandid.of_ok
    | error err =>
        rw [hout] at hcandid
        rw [((herr a err hout s').path h₂).2]
        exact hcandid.of_error
  · obtain ⟨_, heq, -⟩ := hx _ _ _ h₁
    cases heq

/-- What went wrong is at hand, and named. -/
theorem outcome (hx : Honest x) (s : σ) (log : Transcript A) (y : Except Error (Except Error α) × σ)
    (run : ((outcome x).run.run s).Path log y) : ∃ r, y.1 = .ok r ∧ log.Candid r := by
  obtain ⟨l, none, ⟨r, s'⟩, rfl, h₁, hnone⟩ := path_bind.mp run
  obtain ⟨rfl, rfl⟩ := path_done.mp hnone
  rw [List.append_nil]
  exact ⟨r, rfl, hx _ _ _ h₁⟩

end Honest

/-- A block that does not fit is announced, and refused without an access. -/
theorem refused_path {told : Note} {a : A.Addr} {n : Nat} {c : Call A} {log : Transcript A}
    {r : Except Error c.Answer} (hover : 2 ^ A.width < a.toNat + n)
    (run : (do note told; checkFits a n; call c : Link A c.Answer).run.Path log r) :
    log = [⟨.note told, ()⟩, ⟨.note (.rangeWrapped a.toNat n), ()⟩] ∧
      r = .error (.addressWrap a.toNat n) := by
  rw [checkFits, if_neg (mt Arch.fits_iff.mp (Nat.not_le_of_lt hover))] at run
  obtain ⟨_, rest, rfl, hrest⟩ := path_ask.mp run
  obtain ⟨_, none, rfl, hnone⟩ := path_ask.mp hrest
  obtain ⟨rfl, rfl⟩ := path_done.mp hnone
  exact ⟨rfl, rfl⟩

/-- A block that is to be written and does not fit is announced, and refused. -/
theorem writeBuffer_refused {a : A.Addr} {bs : List UInt8} {log : Transcript A}
    {r : Except Error Unit} (hover : 2 ^ A.width < a.toNat + bs.length)
    (run : (writeBuffer a bs).run.Path log r) :
    log = [⟨.note (.writingBuffer bs.length a.toNat), ()⟩,
        ⟨.note (.rangeWrapped a.toNat bs.length), ()⟩] ∧
      r = .error (.addressWrap a.toNat bs.length) := by
  have hne : bs ≠ [] := by
    rintro rfl
    exact absurd a.isLt (Nat.not_lt_of_lt hover)
  rw [writeBuffer, if_neg hne] at run
  exact refused_path hover run

/-- So is one that is to be read. -/
theorem readBuffer_refused {a : A.Addr} {n : Nat} {log : Transcript A}
    {r : Except Error (Bytes n)} (hover : 2 ^ A.width < a.toNat + n)
    (run : (readBuffer a n).run.Path log r) :
    log = [⟨.note (.readingBuffer n a.toNat), ()⟩, ⟨.note (.rangeWrapped a.toNat n), ()⟩] ∧
      r = .error (.addressWrap a.toNat n) := by
  have hne : n ≠ 0 := by
    rintro rfl
    exact absurd a.isLt (Nat.not_lt_of_lt hover)
  rw [readBuffer, dif_neg hne] at run
  exact refused_path hover run

/-- The two reports of such a block name it. -/
theorem candid_refused {told : Note} {a n : Nat} {r : Except Error α}
    (htold : ∀ b m, (Op.note told : Op A).Oversteps b m → a = b ∧ n = m)
    (hr : r = .error (.addressWrap a n)) :
    Transcript.Candid (A := A) [⟨.note told, ()⟩, ⟨.note (.rangeWrapped a n), ()⟩] r := by
  intro event hm b m hover
  simp only [List.mem_cons, List.not_mem_nil, or_false] at hm
  rcases hm with rfl | rfl
  · obtain ⟨rfl, rfl⟩ := htold b m hover
    exact hr
  · obtain ⟨rfl, rfl⟩ := hover
    exact hr

/-- Writing a block names what does not fit. -/
theorem writeBuffer_honest (a : A.Addr) (bs : List UInt8) : HonestAlone (writeBuffer a bs) := by
  intro log r run
  by_cases hfits : a.toNat + bs.length ≤ 2 ^ A.width
  · exact .of_safe ((writeBuffer_safe hfits).path run).1
  · obtain ⟨rfl, hr⟩ := writeBuffer_refused (Nat.lt_of_not_le hfits) run
    exact candid_refused (fun _ _ hover => ⟨hover.1, hover.2.1⟩) hr

/-- So does reading one. -/
theorem readBuffer_honest (a : A.Addr) (n : Nat) : HonestAlone (readBuffer a n) := by
  intro log r run
  by_cases hfits : a.toNat + n ≤ 2 ^ A.width
  · exact .of_safe ((readBuffer_safe hfits).path run).1
  · obtain ⟨rfl, hr⟩ := readBuffer_refused (Nat.lt_of_not_le hfits) run
    exact candid_refused (fun _ _ hover => ⟨hover.1, hover.2.1⟩) hr

/-- The check passes what fits, and nothing else. -/
theorem checkFits_fitting (a : A.Addr) (n : Nat) :
    (checkFits a n).run.Ends fun r => r = .ok () → a.toNat + n ≤ 2 ^ A.width := by
  rw [checkFits]
  split
  · next hfits => exact fun _ => Arch.fits_iff.mp hfits
  · refine ⟨trivial, fun _ => ?_⟩
    rintro ⟨⟩

/-- What is written fits, ... -/
theorem writeBuffer_fitting (a : A.Addr) (bs : List UInt8) :
    (writeBuffer a bs).run.Ends fun r => r = .ok () → a.toNat + bs.length ≤ 2 ^ A.width := by
  refine ⟨trivial, fun _ => ?_⟩
  show Within _ (ExceptT.run (if bs = [] then _ else _)) _
  split
  · next hnil =>
    subst hnil
    exact fun _ => Nat.le_of_lt a.isLt
  · rw [ExceptT.run_bind]
    refine Within.bind ((checkFits_fitting a _).mono ?_)
    rintro (err | _) hfits
    · exact nofun
    · exact (only_any _).mono fun _ _ _ => hfits rfl

/-- ... and so does what is read. -/
theorem readBuffer_fitting (a : A.Addr) (n : Nat) :
    (readBuffer a n).run.Ends fun r => ∀ bytes, r = .ok bytes → a.toNat + n ≤ 2 ^ A.width := by
  refine ⟨trivial, fun _ => ?_⟩
  show Within _ (ExceptT.run (if h : n = 0 then _ else _)) _
  split
  · next hzero =>
    subst hzero
    exact fun _ _ => Nat.le_of_lt a.isLt
  · rw [ExceptT.run_bind]
    refine Within.bind ((checkFits_fitting a _).mono ?_)
    rintro (err | _) hfits
    · exact nofun
    · exact (only_any _).mono fun _ _ _ _ => hfits rfl

namespace Runner

/-- The first parameter that does not fit ends the writing, and is named. -/
theorem writeMem_honest (params : List (MemParam A.width)) : HonestAlone (writeMem params) := by
  induction params with
  | nil => exact .of_only trivial
  | cons p rest ih =>
      rw [writeMem]
      split
      · exact .bind (writeBuffer_honest _ _) fun _ => ih
      · exact ih

/-- The first parameter that does not fit ends the reading, and is named. -/
theorem readMem_candid (params : List (MemParam A.width)) :
    ∀ log r, (readMem params).Path log r → log.Candid r.1 := by
  induction params with
  | nil =>
      intro log r run
      obtain ⟨rfl, rfl⟩ := path_done.mp run
      exact .of_apart (List.forall_mem_nil _)
  | cons p rest ih =>
      -- what comes behind a parameter is read, and put together with it
      have hrest : ∀ {p' : MemParam A.width} {log r},
          (readMem rest >>= fun read => .done (read.1, p' :: read.2)).Path log r →
          log.Candid r.1 := by
        intro p' log r run
        obtain ⟨l, none, ⟨result, rest'⟩, rfl, hread, hnone⟩ := path_bind.mp run
        obtain ⟨rfl, rfl⟩ := path_done.mp hnone
        rw [List.append_nil]
        exact ih _ (result, rest') hread
      intro log r run
      rw [readMem] at run
      split at run
      · obtain ⟨l₁, l₂, err | bytes, rfl, hread, hafter⟩ := path_bind.mp run
        · obtain ⟨rfl, rfl⟩ := path_done.mp hafter
          rw [List.append_nil]
          exact (readBuffer_honest _ _ _ _ hread).of_error
        · exact (readBuffer_honest _ _ _ _ hread).of_ok.append (hrest hafter)
      · exact hrest run

/-- What does not fit when parameters are written is what the launch fails with. -/
theorem launch_honest : Honest (launch (A := A)) := by
  have hload : Honest (load (A := A)) := by
    refine .bind (.of_confined (.modify fun _ => rfl)) fun _ => ?_
    refine .bind (.of_confined (.get)) fun h => ?_
    refine .bind (.of_confined (saveRegs_apart _)) fun _ => ?_
    refine .bind (.lift (writeMem_honest _)) fun _ => ?_
    refine .bind (.lift (.of_only (writeRegs_apart _))) fun _ => ?_
    exact .bind (.lift (.of_only (writeContext_apart _))) fun _ => .of_confined arm_apart
  refine .bind hload fun _ => .of_confined (.bind .get fun _ => ?_)
  exact .bind (.note trivial) fun _ => .call trivial

/-- A start, ... -/
theorem start_honest : Honest (start (A := A)) := by
  refine .bind (.of_confined (.get)) fun h => ?_
  dsimp only
  split
  · exact .of_confined (.bind (.note trivial) fun _ => .throw_bind _ _)
  · split
    · exact .of_confined (.throw_bind _ _)
    · refine .bind (.lift (.of_only requireHalted_apart)) fun _ => ?_
      refine .handle _ (launch_honest.outcome) ?_ ?_
      · rintro (err | _)
        · refine .of_confined (.bind (.outcome disarm_apart) fun _ => ?_)
          exact .bind (.outcome restoreContext_apart) fun _ => .throw _
        · exact .of_confined (.modify fun _ => rfl)
      · -- cleaning up after a launch that failed ends with the launch's failure
        rintro _ err rfl s
        refine .seq (.outcome ((only_any _).mono fun _ _ => ?_))
        exact .seq (.outcome ((only_any _).mono fun _ _ => rfl))

/-- What does not fit when parameters are read back is what collecting fails with. -/
theorem gather_honest : Honest (gather (A := A)) := by
  refine .bind (.of_confined (.get)) fun h => ?_
  refine .bind (.of_confined (.call trivial)) fun pc => ?_
  split
  · exact .of_confined (.bind (.note trivial) fun _ => .throw_bind _ _)
  · refine .handle Prod.fst ?_ ?_ ?_
    · intro s log y run
      obtain ⟨r, rfl, hread⟩ := path_liftDialogue.mp run
      exact ⟨r, rfl, readMem_candid _ _ _ hread⟩
    · refine fun r => .of_confined (.bind (.modify fun _ => rfl) fun _ => ?_)
      refine .bind (.ofExcept _) fun _ => .bind (.liftDialogue (readRegs_apart _ _)) fun r' => ?_
      exact .bind (.modify fun _ => rfl) fun _ => .ofExcept _
    · rintro ⟨_, mem⟩ err rfl s
      exact rfl

/-- That failure is kept while the registers are put back. -/
theorem finish_honest : Honest (finish (A := A)) := by
  have hcollect : Honest (collect (A := A)) := by
    rw [collect_eq]
    exact .bind (.of_confined disarm_apart) fun _ => gather_honest
  refine .handle _ hcollect.outcome (fun collected => ?_) ?_
  · refine .of_confined (.bind (.outcome restoreContext_apart) fun restored => ?_)
    split
    · exact .modify fun _ => rfl
    · exact .bind (.modify fun _ => rfl) fun _ => .throw _
  · rintro _ err rfl s
    exact .seq (.outcome ((only_any _).mono fun _ _ => rfl))

/-- ... and a wait. -/
theorem wait_honest (patience timeout : Nat) : Honest (wait (A := A) patience timeout) := by
  refine .bind (.of_confined (.get)) fun h => ?_
  dsimp only
  split
  · exact .of_confined (.throw_bind _ _)
  · refine .bind (.of_confined (.host trivial)) fun now => ?_
    refine .bind (.of_confined (.liftDialogue (watch_apart _ _ _))) ?_
    rintro (_ | _ | _ | e | _)
    · exact .bind finish_honest fun _ => .of_confined (.pure _)
    · refine .of_confined (.bind (.note trivial) fun _ => ?_)
      exact .bind (.modify fun _ => rfl) fun _ => .throw _
    · exact .of_confined (.throw _)
    · exact .of_confined (.throw _)
    · exact .of_confined (.pure _)

/-! ## What does not fit does not run -/

/-- The parameters of a kind lie in the address space. -/
def Fitting (kind : Direction → Bool) (params : List (MemParam A.width)) : Prop :=
  ∀ p ∈ params, kind p.direction = true → p.address.toNat + p.data.length ≤ 2 ^ A.width

/-- One more parameter. -/
theorem Fitting.cons {kind : Direction → Bool} {p : MemParam A.width}
    {rest : List (MemParam A.width)} (h : Fitting kind rest)
    (hp : kind p.direction = true → p.address.toNat + p.data.length ≤ 2 ^ A.width) :
    Fitting kind (p :: rest) :=
  fun _ hm => (List.mem_cons.mp hm).elim (fun heq => heq ▸ hp) (h _)

/-- Parameters that were all written fit. -/
theorem writeMem_fitting (params : List (MemParam A.width)) :
    (writeMem params).run.Ends fun r => r = .ok () → Fitting Direction.isInput params := by
  induction params with
  | nil => exact fun _ p hm => absurd hm List.not_mem_nil
  | cons p rest ih =>
      rw [writeMem]
      split
      · next hp =>
        rw [ExceptT.run_bind]
        refine Within.bind ((writeBuffer_fitting _ _).mono ?_)
        rintro (err | _) hfits
        · rintro ⟨⟩
        · exact ih.mono fun _ hrest hok => (hrest hok).cons fun _ => hfits rfl
      · next hp => exact ih.mono fun _ hrest hok => (hrest hok).cons fun h => absurd h hp

/-- Parameters that were all read back fit. -/
theorem readMem_fitting (params : List (MemParam A.width)) :
    (readMem params).Ends fun r => r.1 = .ok () → Fitting Direction.isOutput params := by
  induction params with
  | nil => exact fun _ p hm => absurd hm List.not_mem_nil
  | cons p rest ih =>
      rw [readMem]
      split
      · refine Within.bind ((readBuffer_fitting _ _).mono ?_)
        rintro (err | bytes) hfits
        · rintro ⟨⟩
        · exact Within.bind (ih.mono fun _ hrest hok => (hrest hok).cons fun _ => hfits bytes rfl)
      · next hp =>
        exact Within.bind (ih.mono fun _ hrest hok => (hrest hok).cons fun h => absurd h hp)

/-- A block that fits is refused by the target, if at all. -/
theorem writeBuffer_granted {a : A.Addr} {bs : List UInt8}
    (hfits : a.toNat + bs.length ≤ 2 ^ A.width) :
    FailsAlone (fun err => ∃ e, err = .ofTarget e) (writeBuffer a bs) :=
  writeBuffer_failsAs (fun e => ⟨e, rfl⟩) fun hwraps => absurd (Arch.fits_iff.mpr hfits) hwraps

/-- One that is to be read as well. -/
theorem readBuffer_granted {a : A.Addr} {n : Nat} (hfits : a.toNat + n ≤ 2 ^ A.width) :
    FailsAlone (fun err => ∃ e, err = .ofTarget e) (readBuffer a n) :=
  readBuffer_failsAs (fun e => ⟨e, rfl⟩) fun hwraps => absurd (Arch.fits_iff.mpr hfits) hwraps

/-- How it goes with the first parameter that does not fit: it is named, unless the target refuses
    one before it. -/
def Overrun (p : MemParam A.width) : Except Error Unit → Prop
  | .ok () => False
  | .error err => err = .addressWrap p.address.toNat p.data.length ∨ ∃ e, err = .ofTarget e

section Overrun

variable {before after : List (MemParam A.width)} {p : MemParam A.width} {log : Transcript A}

/-- What is written, ... -/
theorem writeMem_overrun {r : Except Error Unit} (hbefore : Fitting Direction.isInput before)
    (hp : p.direction.isInput = true) (hover : 2 ^ A.width < p.address.toNat + p.data.length)
    (run : (writeMem (before ++ p :: after)).run.Path log r) : Overrun p r := by
  induction before generalizing log with
  -- the parameter in question: it is refused
  | nil =>
      rw [List.nil_append, writeMem, if_pos hp, ExceptT.run_bind] at run
      obtain ⟨l, rest, wrote, rfl, hwrite, hrest⟩ := path_bind.mp run
      obtain ⟨-, rfl⟩ := writeBuffer_refused hover hwrite
      obtain ⟨-, rfl⟩ := path_done.mp hrest
      exact Or.inl rfl
  -- one before it, which fits: it may only be refused by the target
  | cons q before ih =>
      have hfits := List.forall_mem_cons.mp hbefore
      rw [List.cons_append, writeMem] at run
      split at run
      · next hq =>
        rw [ExceptT.run_bind] at run
        obtain ⟨l, rest, err | _, rfl, hwrite, hrest⟩ := path_bind.mp run
        · obtain ⟨-, rfl⟩ := path_done.mp hrest
          exact Or.inr (((writeBuffer_granted (hfits.1 hq)).path hwrite).2 err rfl)
        · exact ih hfits.2 hrest
      · exact ih hfits.2 run

/-- ... and what is read. -/
theorem readMem_overrun {r : Except Error Unit × List (MemParam A.width)}
    (hbefore : Fitting Direction.isOutput before) (hp : p.direction.isOutput = true)
    (hover : 2 ^ A.width < p.address.toNat + p.data.length)
    (run : (readMem (before ++ p :: after)).Path log r) : Overrun p r.1 := by
  induction before generalizing log r with
  -- the parameter in question: it is refused
  | nil =>
      rw [List.nil_append, readMem, if_pos hp] at run
      obtain ⟨l, rest, got, rfl, hread, hrest⟩ := path_bind.mp run
      obtain ⟨-, rfl⟩ := readBuffer_refused hover hread
      obtain ⟨-, rfl⟩ := path_done.mp hrest
      exact Or.inl rfl
  -- one before it, which fits: it may only be refused by the target
  | cons q before ih =>
      have hfits := List.forall_mem_cons.mp hbefore
      rw [List.cons_append, readMem] at run
      split at run
      · next hq =>
        obtain ⟨l, rest, err | bytes, rfl, hread, hrest⟩ := path_bind.mp run
        · obtain ⟨-, rfl⟩ := path_done.mp hrest
          exact Or.inr (((readBuffer_granted (hfits.1 hq)).path hread).2 err rfl)
        · obtain ⟨l', none, r', rfl, hmore, hnone⟩ := path_bind.mp hrest
          obtain ⟨-, rfl⟩ := path_done.mp hnone
          exact ih (r := r') hfits.2 hmore
      · obtain ⟨l', none, r', rfl, hmore, hnone⟩ := path_bind.mp run
        obtain ⟨-, rfl⟩ := path_done.mp hnone
        exact ih (r := r') hfits.2 hmore

end Overrun

/-- No start succeeds with an input parameter that does not fit, ... -/
theorem start_fitting (h : Held A) : ((start (A := A)).run.run h).Ends fun r =>
    r.1 = .ok () → Fitting Direction.isInput h.runner.image.mem := by
  have hload : ((load (A := A)).run.run h).Ends fun r =>
      r.1 = .ok () → Fitting Direction.isInput h.runner.image.mem := by
    refine .seq ?_
    show Within _ (((get : RunM A (Held A)) >>= _ : RunM A Unit).run.run
      { h with runner.saved := [] }) _
    refine .get (.seq ((only_any _).mono ?_))
    rintro ⟨err | _, h₁⟩ -
    · exact nofun
    · refine .seq (.lift ((writeMem_fitting _).mono ?_))
      rintro (err | _) hfits
      · exact nofun
      · exact (only_any _).mono fun _ _ _ => hfits rfl
  -- a launch that succeeds is one whose loading did
  have hlaunch : ((launch (A := A)).run.run h).Ends fun r =>
      r.1 = .ok () → Fitting Direction.isInput h.runner.image.mem := by
    refine .seq (hload.mono ?_)
    rintro ⟨err | _, h₁⟩ hfits
    · exact nofun
    · exact (only_any _).mono fun _ _ _ => hfits rfl
  refine .get ?_
  dsimp only
  split
  · exact ⟨trivial, fun _ => nofun⟩
  · split
    · exact nofun
    · refine .seq (.lift ((only_any _).mono ?_))
      rintro (err | _) -
      · exact nofun
      · refine .seq (.outcome (hlaunch.mono ?_))
        rintro ⟨err | _, h₁⟩ hfits
        · -- a launch that failed is not a start that succeeds, whatever cleaning up does
          refine .seq (.outcome ((only_any _).mono fun _ _ => ?_))
          exact .seq (.outcome ((only_any _).mono fun _ _ => nofun))
        · exact fun _ => hfits rfl

/-- Nothing is collected that does not fit. -/
theorem gather_fitting (h : Held A) : ((gather (A := A)).run.run h).Ends fun r =>
    r.1 = .ok () → Fitting Direction.isOutput h.runner.image.mem := by
  refine .get (.seq ((only_any _).mono ?_))
  rintro ⟨err | pc, h₁⟩ -
  · exact nofun
  · dsimp only
    split
    · exact ⟨trivial, fun _ => nofun⟩
    · refine .seq (.liftDialogue ((readMem_fitting _).mono ?_))
      rintro ⟨err | _, mem⟩ hfits
      · exact nofun
      · exact (only_any _).mono fun _ _ _ => hfits rfl

/-- Disarming comes before, and leaves the image as it is. -/
theorem finish_fitting (h : Held A) : ((finish (A := A)).run.run h).Ends fun r =>
    r.1 = .ok () → Fitting Direction.isOutput h.runner.image.mem := by
  have hdisarm : Confined (A := A) (fun _ => True) (fun h => h.runner.image) disarm :=
    (disarm_confined fun _ _ => rfl).weaken fun _ _ => trivial
  have hcollect : ((collect (A := A)).run.run h).Ends fun r =>
      r.1 = .ok () → Fitting Direction.isOutput h.runner.image.mem := by
    rw [collect_eq]
    refine .seq ((hdisarm h).mono ?_)
    rintro ⟨err | _, h₁⟩ himage
    · exact nofun
    · have hsame : h₁.runner.image = h.runner.image := himage
      exact (gather_fitting h₁).mono fun _ hfits hok => hsame ▸ hfits hok
  refine .seq (.outcome (hcollect.mono ?_))
  -- collecting failed, or everything fitted
  rintro ⟨err | _, h₁⟩ hfits
  · exact .seq (.outcome ((only_any _).mono fun _ _ => nofun))
  · exact (only_any _).mono fun _ _ _ => hfits rfl

/-- ... and no wait with an output parameter. -/
theorem wait_fitting (h : Held A) (patience timeout : Nat) :
    ((wait (A := A) patience timeout).run.run h).Ends fun r =>
      r.1 = .ok .completed → Fitting Direction.isOutput h.runner.image.mem := by
  refine .get ?_
  dsimp only
  split
  · exact nofun
  · refine ⟨trivial, fun now => .seq (.liftDialogue ((only_any _).mono ?_))⟩
    rintro watched -
    cases watched with
    | halted =>
        refine .seq ((finish_fitting h).mono ?_)
        rintro ⟨err | _, h₁⟩ hfits
        · exact nofun
        · exact fun _ => hfits rfl
    | expired => exact ⟨trivial, fun _ => nofun⟩
    | _ => exact nofun

end Runner

end DebugLink
