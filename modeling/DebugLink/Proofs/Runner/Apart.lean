import DebugLink.Proofs.Runner.Steady

/-!
# Where memory is accessed

Memory is accessed in two ways: word by word at the places of pointers, and block by block, which
are the memory parameters and the pieces of a stream.  EVERYTHING ELSE THAT A RUN DOES is `Apart`
from memory, and this file says so, part by part.

What is left are the accesses themselves.  `readWord_within` and its like say which they are, for
any `K` that lets pass whatever else there is.
-/

namespace DebugLink

open Dialogue

variable {A : Arch} {K : Op A → Prop}

/-! ## Memory -/

section Accesses

variable (hK : ∀ op : Op A, op.Inwardly Op.Offline → K op)

include hK

/-- A word is read with one access. -/
theorem readWord_within {size : WordSize} {a : A.Addr} (h : K (.call (.read a size.bytes))) :
    (readWord size a).run.Only K := by
  refine .andThen ⟨h, fun _ => trivial⟩ ?_
  rintro (e | bytes)
  · exact ⟨hK _ trivial, fun _ => trivial⟩
  · exact ⟨hK _ trivial, fun _ => ⟨hK _ trivial, fun _ => trivial⟩⟩

/-- And so it is written. -/
theorem writeWord_within {size : WordSize} {a : A.Addr} {v : Nat}
    (h : ∀ order : Endian, K (.call (.write a (order.encode size.bytes v)))) :
    (writeWord size a v).run.Only K :=
  ⟨hK _ trivial, fun order => ⟨hK _ trivial, fun _ => Only.call (h order)⟩⟩

end Accesses

/-- A block is read with one access, unless it is empty or does not fit. -/
theorem readBuffer_within {a : A.Addr} {n : Nat} (hnote : K (.note (.readingBuffer n a.toNat)))
    (hwraps : ¬ Arch.Fits a n → K (.note (.rangeWrapped a.toNat n)))
    (h : 0 < n → Arch.Fits a n → K (.call (.read a n))) : (readBuffer a n).run.Only K := by
  refine ⟨hnote, fun _ => ?_⟩
  show Within _ (ExceptT.run (if h : n = 0 then _ else _)) _
  split
  · trivial
  · -- not empty: the range is checked before the target is asked
    next hn =>
    rw [checkFits]
    split
    · next hfits => exact Only.call (h (Nat.pos_of_ne_zero hn) hfits)
    · next hfits => exact ⟨hwraps hfits, fun _ => trivial⟩

/-- And so it is written. -/
theorem writeBuffer_within {a : A.Addr} {bs : List UInt8}
    (hnote : K (.note (.writingBuffer bs.length a.toNat)))
    (hwraps : ¬ Arch.Fits a bs.length → K (.note (.rangeWrapped a.toNat bs.length)))
    (h : 0 < bs.length → Arch.Fits a bs.length → K (.call (.write a bs))) :
    (writeBuffer a bs).run.Only K := by
  refine ⟨hnote, fun _ => ?_⟩
  show Within _ (ExceptT.run (if bs = [] then _ else _)) _
  split
  · trivial
  · -- not empty: the range is checked before the target is asked
    next hbs =>
    rw [checkFits]
    split
    · next hfits => exact Only.call (h (List.length_pos_iff.mpr hbs) hfits)
    · next hfits => exact ⟨hwraps hfits, fun _ => trivial⟩

namespace Runner

/-! ## Registers and breakpoints -/

/-- Whether the core is halted is not found out through memory. -/
theorem requireHalted_apart : (requireHalted (A := A)).run.Only Op.Apart := by
  refine .andThen (.call trivial) fun state => ?_
  split
  · exact ⟨trivial, fun _ => trivial⟩
  · trivial

/-- Registers are saved without a look at memory. -/
theorem saveRegs_apart (regs : List A.Reg) : Confined Op.Apart (fun _ => ()) (saveRegs regs) := by
  induction regs with
  | nil => exact .pure ()
  | cons reg rest ih =>
      refine .bind .get fun h => ?_
      split
      · exact .bind (.call trivial) fun _ => .bind (.modify fun _ => rfl) fun _ => ih
      · exact ih

/-- Register parameters are written apart from memory. -/
theorem writeRegs_apart (params : List (RegParam A.width × A.Reg)) :
    (writeRegs params).run.Only Op.Apart := by
  induction params with
  | nil => trivial
  | cons p rest ih =>
      obtain ⟨p, reg⟩ := p
      rw [writeRegs]
      split
      · exact .andThen (.call trivial) fun _ => ih
      · exact ih

/-- So is the context. -/
theorem writeContext_apart (regs : List (A.Reg × A.Addr)) :
    (writeContext regs).run.Only Op.Apart := by
  induction regs with
  | nil => trivial
  | cons entry rest ih => exact .andThen (.call trivial) fun _ => ih

/-- A breakpoint is the target's affair, also where it is made of an instruction. -/
theorem arm_apart : Confined (A := A) Op.Apart (fun _ => ()) arm := by
  refine .bind .get fun h => ?_
  dsimp only
  split
  · refine .bind (.feature trivial) fun _ => ?_
    split
    · exact .throw_bind _ _
    · refine .bind (.call trivial) fun _ => ?_
      split
      · exact .bind (.note trivial) fun _ => .throw_bind _ _
      · exact .modify fun _ => rfl
  · exact .pure ()

/-- So is its removal. -/
theorem disarm_apart : Confined (A := A) Op.Apart (fun _ => ()) disarm := by
  refine .bind .get fun h => ?_
  dsimp only
  split
  · exact .pure ()
  · refine .bind (.modify fun _ => rfl) fun _ => .bind (.feature trivial) fun _ => ?_
    split
    · refine .bind (.call trivial) fun _ => ?_
      split
      · exact .note trivial
      · exact .pure ()
    · exact .pure ()

/-- Putting registers back leaves memory alone. -/
theorem writeEach_apart (regs : List (A.Reg × A.Addr)) : (writeEach regs).Only Op.Apart := by
  induction regs with
  | nil => trivial
  | cons entry rest ih =>
      refine ⟨trivial, ?_⟩
      rintro (e | _)
      · exact ⟨trivial, fun _ => Within.bind (d := writeEach rest) (ih.mono fun _ _ => trivial)⟩
      · exact ih

/-- So does all of putting back. -/
theorem restoreContext_apart : Confined (A := A) Op.Apart (fun _ => ()) restoreContext :=
  .bind .get fun _ => .bind (.modify fun _ => rfl) fun _ =>
    .bind (.liftDialogue (writeEach_apart _)) fun _ => .ofExcept _

/-- Register parameters are read back apart from memory. -/
theorem readRegs_apart (params : List (RegParam A.width)) (regs : List A.Reg) :
    (readRegs params regs).Only Op.Apart := by
  induction params generalizing regs with
  | nil => cases regs <;> trivial
  | cons p rest ih =>
      cases regs with
      | nil => trivial
      | cons reg regs =>
          rw [readRegs]
          split
          · refine ⟨trivial, ?_⟩
            rintro (e | value)
            · trivial
            · exact Within.bind (d := readRegs rest regs) ((ih regs).mono fun _ _ => trivial)
          · exact Within.bind ((ih regs).mono fun _ _ => trivial)

/-- Watching looks at the core only. -/
theorem watch_apart (deadline interval patience : Nat) :
    (watch deadline interval patience : Dialogue A Watch).Only Op.Apart :=
  (watch_watchful deadline interval patience).weaken fun _ => Op.Watchful.apart

/-- An algorithm is given up without a look at its memory: nothing is collected. -/
theorem abandon_apart : Confined (A := A) Op.Apart (fun _ => ()) abandon := by
  refine .bind .get fun h => ?_
  dsimp only
  -- nothing runs, or the runner is given up in four steps: halt, disarm, look, put back
  split
  · exact .throw_bind _ _
  · refine .bind (.note trivial) fun _ => .bind (.outcome (.call trivial)) fun halted => ?_
    refine .bind (.outcome disarm_apart) fun disarmed => ?_
    have hpoll : Confined (A := A) Op.Apart (fun _ => ()) (tryCall Call.poll : RunM A _) :=
      fun _ => ⟨trivial, fun _ => rfl⟩
    refine .bind hpoll fun state => ?_
    split
    · -- the core has stopped: its registers are put back
      refine .bind (.outcome restoreContext_apart) fun restored => ?_
      exact .bind (.modify fun _ => rfl) fun _ => .ofExcept _
    · refine .bind (.modify fun _ => rfl) fun _ => .bind (.pure _) fun restored => ?_
      exact .bind (.modify fun _ => rfl) fun _ => .ofExcept _

end Runner

/-! ## Moving data -/

/-- The partner's pointer is read with one access. -/
theorem Engine.partnerPointer_within (hK : ∀ op : Op A, op.Inwardly Op.Offline → K op)
    {place : A.Addr} (h : K (.call (.read place 4))) (flow : Flow) :
    Confined K Unseen (partnerPointer flow place) := by
  refine .bind (.outcome (.lift (readWord_within hK h))) ?_
  rintro (e | ptr)
  · exact .bind (.note (hK _ trivial)) fun _ => .throw _
  · exact .pure _

end DebugLink
