import DebugLink.Proofs.Area.Attempt
import DebugLink.Proofs.Area.Backed
import DebugLink.Proofs.Runner.InSpace

/-!
# Areas lie in the address space

The areas access memory in two places: what is under a block is read when it is handed out, and
written back when it is released.  Neither is ever refused for leaving the address space, because
the window was checked when it was opened and BLOCKS STAY IN THE WINDOW.

* `Housed` is what follows from the tiling: every block lies in the address space, and what is saved
  for it is as long as the block.
* Once that is known, each operation is a few steps that are apart from memory, with at most one
  access in between; `perform_safe` is the sum of them.
* Where an operation goes on after a part that may change the tiling, what the part leads to is
  taken from its runs on any target (`within_anyTarget`).
-/

namespace DebugLink

open Environment Dialogue

variable {A : Arch} {α : Type}

/-- What is known of the ends of all paths from two sides. -/
theorem Dialogue.Within.and {K L : Op A → Prop} {Q R : α → Prop} {d : Dialogue A α}
    (h : d.Within K Q) (h' : d.Within L R) : d.Within K fun a => Q a ∧ R a := by
  induction d with
  | done a => exact ⟨h, h'⟩
  | ask op next ih => exact ⟨h.1, fun a => ih a (h.2 a) (h'.2 a)⟩

namespace Areas

/-- What holds of every run on any target holds of every path. -/
theorem within_anyTarget {Q : α → Bool → Prop} {d : Dialogue A α} {mmu : Bool}
    (h : (anyTarget A).wp Anything d Q mmu) : d.Ends fun x => ∃ mmu', Q x mmu' := by
  induction d generalizing mmu with
  | done x => exact ⟨mmu, h⟩
  | ask op next ih =>
      refine ⟨trivial, fun a => ?_⟩
      obtain ⟨mmu', ha⟩ := anyTarget_answers mmu op a
      exact ih a ((h mmu .refl).2 a mmu' ha)

/-- Blocks lie in the address space, and what is saved for one of them is as long as it is. -/
def Housed {w : Nat} (s : Areas w) : Prop :=
  ∀ i ∈ s.order, (s.block i).address.toNat + (s.block i).size ≤ 2 ^ w ∧
    ∀ bytes, (s.block i).backup = some bytes → bytes.length = (s.block i).size

variable {s : Areas A.width} {live : List (Area A.width)} {mmu : Bool}

/-- Blocks of a window that fits have room, and backups of their own size. -/
theorem Settled.housed (h : Settled s live mmu) (hb : Backed s) : Housed s := by
  intro i hi
  refine ⟨?_, (hb (s.block i) (List.mem_map_of_mem hi)).fits⟩
  rcases h with hclosed | ⟨base, -, hopen, -⟩
  · rw [hclosed.order] at hi
    exact absurd hi List.not_mem_nil
  · exact Nat.le_trans (hopen.tiles.inside hi).2 hopen.fits

/-- Releasing a block moves none. -/
theorem Housed.release {w : Nat} {s : Areas w} (h : Housed s) (hs : Slotted s s.order) {i : Nat}
    (hi : i ∈ s.order) : Housed (s.release i) := by
  intro j hj
  have hlt := hs.lt_size hi
  by_cases hji : j = i
  · subst hji
    rw [block_eq, slot_release_self hlt]
    exact h j hj
  · rw [block_eq, slot_release_other hlt hji]
    exact h j hj

/-! ## Handing out -/

/-- A log is no access. -/
theorem noteBlocks_apart (blocks : List (Block A.width)) :
    (noteBlocks blocks : Dialogue A Unit).Only Op.Apart := by
  induction blocks with
  | nil => trivial
  | cons b rest ih => exact ⟨trivial, fun _ => ih⟩

/-- Nor is one of the whole layout. -/
theorem noteLayout_apart (s : Areas A.width) :
    ((noteLayout (A := A)).run s).Only Op.Apart :=
  Within.bind (d := noteBlocks s.layout) ((noteBlocks_apart _).mono fun _ _ => trivial)

/-- The memory management unit is asked without an access to memory. -/
theorem mmuOn_apart : (mmuOn (A := A)).run.Only Op.Apart := by
  refine ⟨trivial, ?_⟩
  rintro (_ | _)
  · trivial
  · exact Only.call trivial

/-- The window is checked, not accessed. -/
theorem openWindow_apart (n : Nat) : Confined (A := A) Op.Apart (fun _ => ()) (openWindow n) := by
  refine .bind (.lift mmuOn_apart) fun mmu => .bind .get fun s => ?_
  dsimp only
  split
  · exact .bind (.note (by split <;> trivial)) fun _ => .throw _
  · refine .bind (.note (by split <;> trivial)) fun _ => ?_
    split
    · exact .modify fun _ => rfl
    · exact .bind (.note trivial) fun _ => .throw _

/-- So is a block handed over. -/
theorem handOver_apart (i n : Nat) : Confined (A := A) Op.Apart (fun _ => ()) (handOver i n) :=
  .bind (.modify fun _ => rfl) fun _ => .bind .get fun _ => .bind (.note trivial) fun _ =>
    .bind (fun s => Within.bind ((noteLayout_apart s).mono fun _ _ => rfl)) fun _ => .pure _

/-- What is under a block is read. -/
theorem saveBackup_safe {i : Nat}
    (hfits : (s.block i).address.toNat + (s.block i).size ≤ 2 ^ A.width) :
    ((saveBackup (A := A) i).run.run s).Only Op.Safe := by
  rw [saveBackup]
  refine .get (.seq ?_)
  refine .seq (.outcome (.lift ((readBuffer_safe hfits).mono ?_)))
  rintro (e | bytes) _ <;> trivial

/-- The block that is saved lies in the window. -/
theorem serve_safe (hs : Slotted s s.order) (hh : Housed s) (n : Nat) :
    ((serve (A := A) n).run.run s).Only Op.Safe := by
  rw [serve]
  refine .get ?_
  cases hi : s.firstFit? n with
  | none => exact trivial
  | some i =>
      obtain ⟨hmem, -, hn⟩ := firstFit_spec hi
      obtain ⟨before, after, hsits⟩ := Sits.of_mem hs hmem
      -- a block that is cut begins where it began
      have hfits : ((s.split i n).block i).address.toNat + ((s.split i n).block i).size ≤
          2 ^ A.width := by
        rw [(hsits.split hn).block]
        exact Nat.le_trans (Nat.add_le_add_left hn _) (hh i hmem).1
      have hover (s' : Areas A.width) : ((handOver (A := A) i n).run.run s').Only Op.Safe :=
        ((handOver_apart i n s').weaken fun _ => Op.Apart.safe).mono fun _ _ => trivial
      show Within _ ((do
        if (← get).config.backup then
          saveBackup i
        handOver i n : AreaM A (Area A.width)).run.run (s.split i n)) _
      refine .get ?_
      split
      · refine .seq ((saveBackup_safe hfits).mono ?_)
        rintro ⟨_ | _, s'⟩ -
        · trivial
        · exact hover s'
      · exact hover _

/-- An attempt to get an area, ... -/
theorem allocTry_safe (h : Settled s live mmu ∧ Backed s) (size : Nat) :
    ((allocTry (A := A) size).run.run s).Only Op.Safe := by
  rw [allocTry_eq]
  cases hn : roundUp? size with
  | none => exact trivial
  | some n =>
      refine .get ?_
      cases ho : s.opened with
      | true => exact serve_safe h.1.standing.slotted (h.1.housed h.2) n
      | false =>
          have hopen := (openWindow_apart n s).weaken fun _ => Op.Apart.safe
          refine .seq ((hopen.and (within_anyTarget (backed_grants.opens h ho))).mono ?_)
          rintro ⟨_ | _, s'⟩ ⟨-, mmu', hs⟩
          · trivial
          · exact serve_safe hs.1.standing.slotted (hs.1.housed hs.2) n

/-- ... and where it leads to. -/
theorem allocTry_within (h : Settled s live mmu ∧ Backed s) (size : Nat) :
    ((allocTry (A := A) size).run.run s).Within Op.Safe fun r =>
      ∃ live mmu, Settled r.2 live mmu ∧ Backed r.2 :=
  ((allocTry_safe h size).and (within_anyTarget (backed_grants.wp_allocTry h size))).mono
    fun _ ⟨_, mmu, hr⟩ => ⟨_, mmu, hr⟩

/-- A request for an area stays inside. -/
theorem alloc_safe (h : Settled s live mmu ∧ Backed s) (size : Nat) :
    ((alloc (A := A) size).run.run s).Only Op.Safe := by
  rw [alloc]
  refine .seq (.outcome ((allocTry_safe h size).mono ?_))
  rintro ⟨e | area, s'⟩ -
  · cases e with
    | resourceNotAvailable _ _ => exact ⟨Op.Apart.safe trivial, fun _ => trivial⟩
    | _ => trivial
  · trivial

/-- So does each attempt of a search. -/
theorem allocHalving_safe {least : Nat} (hl : 0 < least) (size : Nat) :
    ∀ {s : Areas A.width} {live : List (Area A.width)} {mmu : Bool},
      Settled s live mmu ∧ Backed s →
      ((allocHalving (A := A) least size hl).run.run s).Only Op.Safe := by
  -- on the size, which is halved from attempt to attempt
  induction size using Nat.strongRecOn with
  | ind size ih =>
      intro s live mmu h
      rw [allocHalving]
      refine .seq (.outcome ((allocTry_within h size).mono ?_))
      rintro ⟨e | area, s'⟩ ⟨live', mmu', hs⟩
      · cases e with
        | resourceNotAvailable requested available =>
            show Within _ ((if h : least ≤ size / 2 then allocHalving least (size / 2) hl
              else do
                note (.noneLargeEnough least)
                throw (.resourceNotAvailable requested available)
              : AreaM A (Area A.width)).run.run s') _
            split
            · exact ih (size / 2) (by omega) hs
            · exact ⟨Op.Apart.safe trivial, fun _ => trivial⟩
        | _ => trivial
      · trivial

/-! ## Taking back -/

/-- What was saved is written back. -/
theorem restore_safe (hh : Housed s) {i : Nat} (hi : i ∈ s.order) :
    (s.restore (A := A) i).run.Only Op.Safe := by
  rw [restore]
  split
  · cases hbackup : (s.block i).backup with
    | none => trivial
    | some bytes =>
        obtain ⟨hfits, hlen⟩ := hh i hi
        rw [← hlen bytes hbackup] at hfits
        refine .andThen (Within.bind ((writeBuffer_safe hfits).mono fun _ _ => trivial)) ?_
        rintro (e | _)
        · exact ⟨Op.Apart.safe trivial, fun _ => trivial⟩
        · trivial
  · trivial

/-- A block is taken back without an access. -/
theorem takeBack_apart (area : Area A.width) (i : Nat) (restored : Except Error Unit) :
    Confined (A := A) Op.Apart (fun _ => ()) (takeBack area i restored) := by
  refine .bind (.modify fun _ => rfl) fun _ => .bind (.note trivial) fun _ => ?_
  refine .bind (.modify fun _ => rfl) fun _ => ?_
  refine .bind (fun s => Within.bind ((noteLayout_apart s).mono fun _ _ => rfl)) fun _ => ?_
  split
  · exact .pure _
  · exact .throw _

/-- What is put back lies where it was saved. -/
theorem freeRestore_safe (hs : Slotted s s.order) (hh : Housed s) (area : Area A.width)
    (putBack : Bool) : ((freeRestore (A := A) area putBack).run.run s).Only Op.Safe := by
  have hback (i : Nat) (restored : Except Error Unit) (s' : Areas A.width) :
      ((takeBack (A := A) area i restored).run.run s').Only Op.Safe :=
    ((takeBack_apart area i restored s').weaken fun _ => Op.Apart.safe).mono fun _ _ => trivial
  have hstale : ((do
      note (.staleArea area.address.toNat)
      throw .staleHandle : AreaM A Unit).run.run s).Only Op.Safe :=
    ⟨Op.Apart.safe trivial, fun _ => trivial⟩
  rw [freeRestore_eq]
  refine .get (.seq (.liftDialogue ?_))
  rw [lookup]
  split
  · next hid =>
    cases hi : s.slotOf? area.id with
    | none => exact hstale
    | some i =>
        have hmem := (slotOf?_some hs hid hi).1
        show Within _ (StateT.run (ExceptT.run (if putBack then _ else _)) s) _
        split
        · refine .get (.seq (.outcome (.lift ((restore_safe hh hmem).mono ?_))))
          exact fun restored _ => hback i restored s
        · exact hback i _ s
  · exact ⟨Op.Apart.safe trivial, fun _ => hstale⟩

/-- So it does for all blocks, one after the other. -/
theorem releaseEach_safe (putBack : Bool) (rest : List Nat) :
    ∀ {s : Areas A.width}, Slotted s s.order → Housed s → (∀ i ∈ rest, i ∈ s.order) →
      ((releaseEach (A := A) putBack rest).run s).Only Op.Safe := by
  induction rest with
  | nil => exact fun _ _ _ => trivial
  | cons i rest ih =>
      intro s hs hh hsub
      have hi : i ∈ s.order := hsub i List.mem_cons_self
      have hsub' : ∀ j ∈ rest, j ∈ s.order := fun j hj => hsub j (List.mem_cons_of_mem i hj)
      have hrest : ((releaseEach (A := A) putBack rest).run (s.release i)).Only Op.Safe :=
        ih (hs.release hi) (hh.release hs hi) hsub'
      rw [releaseEach]
      cases hf : (s.block i).free with
      | true =>
          show Within _ (StateT.run (if !(s.block i).free then _ else _) s) _
          rw [if_neg (by simp [hf])]
          exact ih hs hh hsub'
      | false =>
          show Within _ (StateT.run (if !(s.block i).free then _ else _) s) _
          rw [if_pos (by simp [hf])]
          cases putBack with
          | true =>
              refine Within.bind (d := (s.restore (A := A) i).run >>= _) ?_
              exact Within.bind ((restore_safe hh hi).mono fun _ _ => hrest)
          | false => exact hrest

/-- Giving back everything stays inside. -/
theorem freeAllRestore_safe (hs : Slotted s s.order) (hh : Housed s) (putBack : Bool) :
    ((freeAllRestore (A := A) putBack).run s).Only Op.Safe := by
  rw [freeAllRestore]
  refine Within.bind (d := (releaseEach putBack s.order).run s)
    ((releaseEach_safe putBack s.order hs hh fun _ hi => hi).mono ?_)
  intro r _
  exact (noteLayout_apart _).weaken fun _ => Op.Apart.safe

/-- EVERY REQUEST is served without an access out of the address space, and without a report of
    one. -/
theorem perform_safe (h : Settled s live mmu ∧ Backed s) (request : AreaRequest A.width) :
    (request.perform.run s).Only Op.Safe := by
  have hs := h.1.standing.slotted
  have hh := h.1.housed h.2
  cases request with
  | alloc size => exact Within.bind ((alloc_safe h size).mono fun _ _ => trivial)
  | allocTry size => exact Within.bind ((allocTry_safe h size).mono fun _ _ => trivial)
  | allocShrinking preferred least =>
      exact Within.bind ((allocHalving_safe _ _ h).mono fun _ _ => trivial)
  | free area => exact Within.bind ((freeRestore_safe hs hh area true).mono fun _ _ => trivial)
  | freeRestore area putBack =>
      exact Within.bind ((freeRestore_safe hs hh area putBack).mono fun _ _ => trivial)
  | freeAll =>
      refine Within.bind (Within.bind (d := (freeAllRestore true).run s) ?_)
      exact (freeAllRestore_safe hs hh true).mono fun _ _ => trivial
  | freeAllRestore putBack =>
      exact Within.bind ((freeAllRestore_safe hs hh putBack).mono fun _ _ => trivial)
  | setConfig config => trivial

/-- Every request does, at any time. -/
theorem Reachable.safe (h : Reachable A s live mmu) (request : AreaRequest A.width) :
    (request.perform.run s).Only Op.Safe :=
  perform_safe ⟨h.settled, h.backed⟩ request

end Areas

end DebugLink
