import DebugLink.Proofs.Agree
import DebugLink.Proofs.Area.Operations
import DebugLink.Proofs.Area.Twins

/-!
# Twins in lockstep

No operation can tell `Twins` apart: asked of either, it asks the target THE SAME IN THE SAME ORDER,
ends in the same way, and leaves twins.  One lemma per operation, put together as the operations
are: `agree_serve` out of choosing, cutting, saving and handing over, `agree_freeRestore` out of
putting back, releasing and joining.
-/

namespace DebugLink.Areas

open Dialogue

variable {A : Arch} {s t : Areas A.width} {i j n : Nat}

/-! ## Reports -/

/-- A log of the layout shows of a block what its twin shows. -/
theorem note_shown {b c : Block A.width} (h : b.shown = c.shown) :
    Note.shown (.block b.backup.isSome b.free b.address.toNat
        (offset b.address (b.size - 1)).toNat b.size) =
      Note.shown (.block c.backup.isSome c.free c.address.toNat
        (offset c.address (c.size - 1)).toNat c.size) := by
  have hfree : b.free = c.free := by rw [← b.free_shown, h, c.free_shown]
  have haddress : b.address = c.address := by rw [← b.shown_address, h, c.shown_address]
  have hsize : b.size = c.size := by rw [← b.shown_size, h, c.shown_size]
  cases hf : b.free with
  | false =>
      rw [Block.shown_live hf, Block.shown_live (hfree.symm.trans hf)] at h
      rw [← h, hf]
  | true =>
      rw [← hfree, hf, haddress, hsize]
      rfl

/-- Rows of blocks that show the same are reported in the same lines. -/
theorem agree_noteBlocks {l : List (Block A.width)} : ∀ {l' : List (Block A.width)},
    l.map Block.shown = l'.map Block.shown →
    Agree (fun _ _ => True) (noteBlocks (A := A) l) (noteBlocks l') := by
  induction l with
  | nil =>
      intro l' h
      obtain rfl := List.map_eq_nil_iff.mp h.symm
      exact .done trivial
  | cons b rest ih =>
      intro l' h
      obtain ⟨c, rest', rfl, hc, hrest⟩ := List.map_eq_cons_iff.mp h.symm
      exact .note (note_shown hc.symm) (ih hrest.symm)

/-- So twins report their layout in the same lines. -/
theorem agree_noteLayout (h : s.shown = t.shown) {Q : Unit × Areas A.width →
    Unit × Areas A.width → Prop} (hQ : Q ((), s) ((), t)) :
    Agree Q ((noteLayout (A := A)).run s) ((noteLayout (A := A)).run t) :=
  (agree_noteBlocks h).bind fun _ _ _ => .done hQ

/-! ## Handing out -/

/-- Both have handed out the same. -/
def Issued (r r' : Area A.width × Areas A.width) : Prop :=
  r.1.address = r'.1.address ∧ r.1.size = r'.1.size ∧ Twins r.2 r'.2

/-- The memory management unit is asked, and twins have the same window for its answer. -/
theorem agree_openWindow (h : Twins s t) (ho : s.opened = false) (n : Nat) :
    Agree (Both (fun r r' => Twins r.2 r'.2) Twins) ((openWindow n).run.run s)
      ((openWindow n).run.run t) := by
  rw [openWindow]
  refine Agree.link_bind h fun on => Agree.get_bind ?_
  dsimp only
  rw [← h.config]
  -- no window, a window that wraps around, or one that is opened
  cases hw : s.config.window? on with
  | none => exact Agree.note_bind rfl (.done (.error _ h))
  | some base =>
      refine Agree.note_bind rfl ?_
      by_cases hfits : Arch.Fits base s.config.usable
      · have htwins := h.openAt base ho
        rw [openAt, openAt, ← h.config] at htwins
        rw [if_pos hfits]
        exact .done (.ok htwins)
      · rw [if_neg hfits]
        exact Agree.note_bind rfl (.done (.error _ h))

/-- What a block keeps of memory is what it was told to keep. -/
theorem backup_modifyBlock (hi : i < s.slots.size) (f : Block A.width → Option (List UInt8)) :
    ((s.modifyBlock i fun b => { b with backup := f b }).block i).backup = f (s.block i) := by
  rw [block_eq, slot_modifyBlock_self hi]

/-- Memory is saved by the same read, or not at all. -/
theorem agree_saveBackup (h : Chosen s t i j n) (hb : s.config.backup = true) :
    Agree (Both (fun r r' => Chosen r.2 r'.2 i j n ∧
        (r.2.block i).backup = (r'.2.block j).backup) Twins)
      ((saveBackup i).run.run s) ((saveBackup j).run.run t) := by
  rw [saveBackup, saveBackup]
  refine Agree.get_bind (Agree.modify_bind ?_)
  have hnone := h.modifyBackup hb fun _ => none
  have haddress := h.facing.address
  have hsize := h.facing.size
  -- how many bytes are read depends on the block, so that the two sizes are made one first
  generalize s.block i = b at haddress hsize ⊢
  generalize t.block j = c at haddress hsize ⊢
  obtain ⟨address, size, _, _⟩ := b
  obtain ⟨_, _, _, _⟩ := c
  obtain rfl : address = _ := haddress
  obtain rfl : size = _ := hsize
  refine Agree.outcome_bind ?_
  rintro (e | bytes)
  · exact Agree.modify_bind (.done (.error e hnone.toTwins.merge))
  · have hsome := hnone.modifyBackup hb fun _ => some bytes.val
    have hsaved := backup_modifyBlock (hnone.left.lt_size hnone.facing.left) fun _ =>
      some bytes.val
    have hsaved' := backup_modifyBlock (hnone.right.lt_size hnone.facing.right) fun _ =>
      some bytes.val
    exact .done (.ok ⟨hsome, hsaved.trans hsaved'.symm⟩)

/-- A block is handed over under the same address and size; the handles differ in nothing else that
    shows. -/
theorem agree_handOver (h : Chosen s t i j n)
    (hsaved : (s.block i).backup = (t.block j).backup) :
    Agree (Both Issued Twins) ((handOver i n).run.run s) ((handOver j n).run.run t) := by
  obtain ⟨htwins, hfacing⟩ := h.handOut hsaved
  rw [handOver, handOver]
  refine Agree.modify_bind (Agree.get_bind ?_)
  refine Agree.note_bind (by rw [hfacing.address]) ?_
  -- the layout that is reported is the one after the block was handed out
  refine Agree.seq (R := fun r r' => r.2 = s.handOut i ∧ r'.2 = t.handOut j)
    (Agree.liftState (agree_noteLayout htwins.shown ⟨rfl, rfl⟩)) ?_
  rintro _ _ _ _ ⟨rfl, rfl⟩
  exact .done (.ok ⟨hfacing.address, rfl, htwins⟩)

/-- Twins choose blocks at one position, cut them alike, and save the same memory. -/
theorem agree_serve (h : Twins s t) (hpos : 0 < n) :
    Agree (Both Issued Twins) ((serve n).run.run s) ((serve n).run.run t) := by
  rw [serve]
  refine Agree.get_bind ?_
  cases hi : s.firstFit? n with
  | none =>
      rw [h.firstFit_none hi]
      refine Agree.get_bind ?_
      rw [h.available]
      exact .done (.error _ h)
  | some i =>
      obtain ⟨j, hj, hfacing⟩ := h.firstFit hi
      obtain ⟨_, hfree, hsize⟩ := firstFit_spec hi
      have hcut := h.split hfacing hfree hpos hsize
      rw [hj]
      refine Agree.modify_bind (Agree.get_bind ?_)
      rw [split_config, split_config, ← h.config]
      -- without backups, what a block kept from before must be the same on both sides: nothing
      cases hb : s.config.backup with
      | false =>
          rw [if_neg Bool.false_ne_true]
          have hbare := (hcut.left.blocks i hcut.facing.left).bare
          have hbare' := (hcut.right.blocks j hcut.facing.right).bare
          rw [split_config] at hbare hbare'
          exact agree_handOver hcut ((hbare hb).trans (hbare' (h.config ▸ hb)).symm)
      | true =>
          rw [if_pos rfl]
          have hb' : (s.split i n).config.backup = true := by rw [split_config, hb]
          -- with them, it is what was just read
          refine Agree.seq (agree_saveBackup hcut hb') ?_
          rintro _ s' _ t' ⟨hcut', hsaved⟩
          exact agree_handOver hcut' hsaved

/-- An attempt opens the window if it is closed, of both or of neither. -/
theorem agree_allocTry (h : Twins s t) (size : Nat) :
    Agree (Both Issued Twins) ((allocTry size).run.run s) ((allocTry size).run.run t) := by
  rw [allocTry_eq]
  cases hn : roundUp? size with
  | none =>
      refine Agree.get_bind ?_
      rw [h.available]
      exact .done (.error _ h)
  | some n =>
      have hpos := (Grants.roundUp_spec hn).1
      refine Agree.get_bind ?_
      rw [← h.opened]
      cases ho : s.opened with
      | true => exact agree_serve h hpos
      | false =>
          refine Agree.seq (agree_openWindow h ho n) ?_
          rintro _ s' _ t' h'
          exact agree_serve h' hpos

/-- The log has a line more if there was no room, for both. -/
theorem agree_alloc (h : Twins s t) (size : Nat) :
    Agree (Both Issued Twins) ((alloc size).run.run s) ((alloc size).run.run t) := by
  rw [alloc]
  refine Agree.seq (Agree.outcome (agree_allocTry h size)) ?_
  rintro _ _ _ _ (hissued | ⟨e, h'⟩)
  · exact .done (.ok hissued)
  · cases e with
    | resourceNotAvailable requested available =>
        exact Agree.note_bind rfl (.done (.error _ h'))
    | _ => exact .done (.error _ h')

/-- The search goes on with half the size for both, and comes to its end at one size. -/
theorem agree_allocHalving {least : Nat} (hl : 0 < least) (size : Nat) :
    ∀ {s t : Areas A.width}, Twins s t →
      Agree (Both Issued Twins) ((allocHalving least size hl).run.run s)
        ((allocHalving least size hl).run.run t) := by
  induction size using Nat.strongRecOn with
  | ind size ih =>
      intro s t h
      rw [allocHalving]
      refine Agree.seq (Agree.outcome (agree_allocTry h size)) ?_
      rintro _ s' _ t' (hissued | ⟨e, h'⟩)
      · exact .done (.ok hissued)
      · cases e with
        | resourceNotAvailable requested available =>
            -- only a lack of room halves the size, and there is still some to try
            by_cases hsize : least ≤ size / 2
            · simp only [dif_pos hsize]
              exact ih (size / 2) (by omega) h'
            · simp only [dif_neg hsize]
              exact Agree.note_bind rfl (.done (.error _ h'))
        | _ => exact .done (.error _ h')

/-- Twins are searched from the same size on. -/
theorem agree_allocShrinking (h : Twins s t) (preferred least : Nat) :
    Agree (Both Issued Twins) ((allocShrinking preferred least).run.run s)
      ((allocShrinking preferred least).run.run t) := by
  rw [allocShrinking]
  exact agree_allocHalving _ _ h

/-! ## Taking back -/

/-- What was saved for a block that was handed out is put back by the same accesses. -/
theorem restore_congr (h : Twins s t) (hf : Facing s t i j) (hlive : (s.block i).free = false) :
    s.restore i = t.restore j := by
  have hblock : s.block i = t.block j := by
    refine Block.eq_of_shown hf.face fun hfree => ?_
    rw [hlive] at hfree
    exact absurd hfree Bool.false_ne_true
  rw [restore, restore, h.config, hblock]

/-- Two handles of which either both hold, on slots that face each other, or neither does. -/
def Matching (s t : Areas A.width) (a b : Area A.width) : Prop :=
  a.address = b.address ∧ a.size = b.size ∧
    Agree (Option.Rel fun i j => Facing s t i j ∧ (s.block i).free = false) (s.lookup a.id)
      (t.lookup b.id)

namespace Matching

/-- Handles on slots that face each other. -/
theorem of_facing (h : Twins s t) (hf : Facing s t i j) (hlive : (s.block i).free = false) :
    Matching s t (s.handle i) (t.handle j) := by
  refine ⟨hf.address, hf.size, ?_⟩
  rw [lookup_handle h.left.toSlotted hf.left hlive,
    lookup_handle h.right.toSlotted hf.right (hf.free ▸ hlive)]
  exact .done (.some ⟨hf, hlive⟩)

/-- Any handle, in one arena. -/
theorem refl (h : Slotted s s.order) (a : Area A.width) : Matching s s a a := by
  refine ⟨rfl, rfl, ?_⟩
  rw [lookup]
  split
  · next howner =>
    cases hi : s.slotOf? a.id with
    | none => exact .done .none
    | some i =>
        obtain ⟨hmem, hlive, _⟩ := slotOf?_some h howner hi
        exact .done (.some ⟨.refl hmem, hlive⟩)
  · exact .note rfl (.done .none)

end Matching

/-- A block is joined with its neighbours; of twins the neighbours are free alike. -/
theorem agree_takeBack (h : Twins s t) (hf : Facing s t i j) {a b : Area A.width}
    (haddress : a.address = b.address) (hsize : a.size = b.size)
    (restored : Except Error Unit) : Agree (Both (fun r r' => Twins r.2 r'.2) Twins)
      ((takeBack a i restored).run.run s) ((takeBack b j restored).run.run t) := by
  have htwins := (h.release hf).1.merge
  unfold takeBack
  rw [haddress, hsize]
  refine Agree.modify_bind (Agree.note_bind rfl (Agree.modify_bind ?_))
  refine Agree.seq (R := fun r r' => Twins r.2 r'.2)
    (Agree.liftState (agree_noteLayout htwins.shown htwins)) ?_
  rintro _ _ _ _ htwins'
  cases restored with
  | ok _ => exact .done (.ok htwins')
  | error e => exact .done (.error e htwins')

/-- Of two handles that match, both are refused, or the blocks behind both are released. -/
theorem agree_freeRestore {a b : Area A.width} (h : Twins s t) (hab : Matching s t a b)
    (putBack : Bool) : Agree (Both (fun r r' => Twins r.2 r'.2) Twins)
      ((freeRestore a putBack).run.run s) ((freeRestore b putBack).run.run t) := by
  obtain ⟨haddress, hsize, hlookup⟩ := hab
  rw [freeRestore_eq, freeRestore_eq]
  refine Agree.get_bind ?_
  refine Agree.seq (R := fun r r' => r.2 = s ∧ r'.2 = t ∧
    Option.Rel (fun i j => Facing s t i j ∧ (s.block i).free = false) r.1 r'.1)
    (Agree.liftDialogue (hlookup.mono fun _ _ hij => ⟨rfl, rfl, hij⟩)) ?_
  rintro _ s _ t ⟨rfl, rfl, @⟨i, j, hf, hlive⟩ | _⟩
  · -- both handles hold
    have hrest := agree_takeBack h hf haddress hsize
    cases putBack with
    | true =>
        refine Agree.get_bind ?_
        rw [restore_congr h hf hlive]
        exact Agree.outcome_bind hrest
    | false => exact hrest (.ok ())
  · -- neither does
    exact Agree.note_bind (by rw [haddress]) (.done (.error _ h))

/-- One after the other, of twins from the same place on. -/
theorem agree_releaseEach (putBack : Bool) (rest : List Nat) :
    ∀ {rest' p p' : List Nat} {s t : Areas A.width}, Twins s t → s.order = p ++ rest →
      t.order = p' ++ rest' → p.length = p'.length →
      Agree (fun r r' => Twins r.2 r'.2) ((releaseEach putBack rest).run s)
        ((releaseEach putBack rest').run t) := by
  induction rest with
  | nil =>
      intro rest' p p' s t h ho ho' hlen
      obtain ⟨_, hrest⟩ := shown_append h.shown ho ho' hlen
      obtain rfl := List.map_eq_nil_iff.mp hrest.symm
      exact .done h
  | cons i rest ih =>
      intro rest' p p' s t h ho ho' hlen
      obtain ⟨hp, hrest⟩ := shown_append h.shown ho ho' hlen
      obtain ⟨j, rest', rfl, hj, hq⟩ := List.map_eq_cons_iff.mp hrest.symm
      have hf : Facing s t i j := ⟨p, rest, p', rest', ho, ho', hp, hj.symm, hq.symm⟩
      have hsecond : ∀ {order p rest : List Nat} {i : Nat}, order = p ++ i :: rest →
          order = (p ++ [i]) ++ rest := by
        intro order p rest i h
        rw [h, List.append_assoc]
        rfl
      have hlen' : (p ++ [i]).length = (p' ++ [j]).length := by simp [hlen]
      have hreleased := (h.release hf).1
      rw [releaseEach, releaseEach]
      refine Agree.get_then ?_
      rw [hf.free]
      -- the blocks at one position are free or not alike, so both loops do the same with them
      cases hlive : (t.block j).free with
      | true => exact ih h (hsecond ho) (hsecond ho') hlen'
      | false =>
          cases putBack with
          | true =>
              refine Agree.get_then ?_
              rw [restore_congr h hf (hf.free.trans hlive)]
              refine Agree.dialogue_then fun _ => ?_
              exact ih hreleased (hsecond ho) (hsecond ho') hlen'
          | false => exact ih hreleased (hsecond ho) (hsecond ho') hlen'

/-- All blocks are released, in the order in which they lie there. -/
theorem agree_freeAllRestore (h : Twins s t) (putBack : Bool) :
    Agree (fun r r' => Twins r.2 r'.2) ((freeAllRestore (A := A) putBack).run s)
      ((freeAllRestore (A := A) putBack).run t) := by
  rw [freeAllRestore]
  refine (@agree_releaseEach A putBack s.order t.order [] [] s t h rfl rfl rfl).bind ?_
  rintro ⟨_, s'⟩ ⟨_, t'⟩ h'
  exact agree_noteLayout h'.merge.shown h'.merge

/-- With everything released, the window is closed on both sides. -/
theorem agree_freeAll (h : Twins s t) :
    Agree (fun r r' => Twins r.2 r'.2) ((freeAll (A := A)).run s) ((freeAll (A := A)).run t) :=
  (agree_freeAllRestore h true).bind fun _ _ h' => .done h'.discard

end DebugLink.Areas
