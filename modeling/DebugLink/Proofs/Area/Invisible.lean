import DebugLink.Arch.Plain
import DebugLink.Proofs.Area.Kept
import DebugLink.Proofs.Area.Operations

/-!
# Backups make working areas invisible

`Undisturbed` is every history of requests with backups, on a target whose writes succeed and
whose reads may fail.  Between two requests the window may change inside live areas only.  Next
to the areas and the handles that hold it keeps what the memory held when the window was opened.

`Undisturbed.invisible`: at every moment the window holds STILL what it held then, outside the
live areas; and once everything is given back, all of it does.
-/

namespace DebugLink

open Environment

/-- Does a request put back what it releases? -/
def AreaRequest.PutsBack {w : Nat} : AreaRequest w → Prop
  | .freeRestore _ putBack | .freeAllRestore putBack => putBack = true
  | .setConfig _ => False
  | .alloc _ | .allocTry _ | .allocShrinking _ _ | .free _ | .freeAll => True

namespace Areas

/-- Memory that nothing but the library changes while an operation runs.  Writes succeed;
    anything else may be refused. -/
def writable (order : Endian) : Bench Contents where
  order := order
  memory := fun m => m
  moves _ _ := False
  afterWrite := Contents.store
  refuses _ _ _ _ := False

/-- The addresses of an open window. -/
def InWindow {w : Nat} (s : Areas w) (x : Nat) : Prop :=
  ∃ b, s.layout.head? = some b ∧ b.address.toNat ≤ x ∧ x < b.address.toNat + s.config.usable

/-- What the memory held when the window was opened; what it holds now, if it is closed. -/
def sinceOpened {w : Nat} (s : Areas w) (original m : Contents) : Contents :=
  if s.opened then original else m

/-- The areas, the handles that hold, the memory, and what it held when the window was opened. -/
inductive Undisturbed (A : Arch) (order : Endian) :
    Areas A.width → List (Area A.width) → Contents → Contents → Prop where
  | new (id : Nat) (config : AreaConfig A.width) (m : Contents) (hb : config.backup = true) :
      Undisturbed A order { id, config } [] m m
  /-- Between two requests. -/
  | between {s : Areas A.width} {live : List (Area A.width)} {m m' original : Contents} :
      Undisturbed A order s live m original →
      (∀ x, s.InWindow x → (∀ a ∈ live, ¬a.Covers x) → m' x = m x) →
      Undisturbed A order s live m' (s.sinceOpened original m')
  /-- One that opens the window changes no memory, so what it is opened over is what was there
      before the request. -/
  | request {s s' : Areas A.width} {live : List (Area A.width)} {m m' original : Contents}
      {issued : Option (Area A.width)} (request : AreaRequest A.width) (hr : request.PutsBack) :
      Undisturbed A order s live m original →
      ((writable order).env A).Reaches (request.perform.run s) m (.done (issued, s')) m' →
      Undisturbed A order s' (request.live live issued) m' (s'.sinceOpened original m')
  | reconfigure {s s' : Areas A.width} {live : List (Area A.width)} {m m' original : Contents}
      (config : AreaConfig A.width) (hb : config.backup = true) :
      Undisturbed A order s live m original →
      ((writable order).env A).Reaches ((Areas.reconfigure config).run s) m (.done ((), s')) m' →
      Undisturbed A order s' [] m' m'

section Invariant

variable {A : Arch} {order : Endian} {s : Areas A.width} {live live₀ : List (Area A.width)}
  {m original : Contents} {window : Nat → Prop}

/-- Memory that the program may write to changes with accesses only. -/
theorem writable_tame : Tame ((writable order).env A) where
  still := fun h => h
  note := fun h => h

/-- Between operations. -/
def Intact (s : Areas A.width) (live : List (Area A.width)) (original m : Contents) : Prop :=
  s.config.backup = true ∧ (Closed s live ∧ m = original ∨
    ∃ base, Opened s live base ∧ s.Coalesced s.order ∧ Kept s live base original m)

/-! ## Handing out -/

/-- The question about the memory management unit changes no memory. -/
theorem wp_mmuOn_still {I : Contents → Prop} {Q : Except Error Bool → Contents → Prop}
    (hI : I m) (h : ∀ r, Q r m) :
    ((writable order).env A).wp I (mmuOn (A := A)).run Q m := by
  have hP : ((writable order).env A).Lasts I fun v => v = m :=
    writable_tame.lasts fun v hv => hv ▸ hI
  refine wp_ask hP rfl ?_
  rintro _ (_ | _) m' rfl ha
  · obtain rfl : m' = _ := ha
    exact h _
  · obtain rfl : m' = _ := ha
    refine wp_ask hP rfl ?_
    rintro _ (e | on) m' rfl ha
    · obtain rfl : m' = _ := ha
      exact h _
    · obtain rfl : m' = _ := ha
      exact h _

/-- While the window is open, all of it that is handed out is kept somewhere. -/
theorem Intact.opened (h : Intact s live original m) (ho : s.opened = true) :
    ∃ base, Opened s live base ∧ s.Coalesced s.order ∧ Kept s live base original m := by
  rcases h.2 with ⟨hc, _⟩ | h
  · rw [hc.opened_eq] at ho
    exact absurd ho Bool.false_ne_true
  · exact h

/-- While it is closed, memory is as it was. -/
theorem Intact.closed (h : Intact s live original m) (ho : s.opened = false) :
    Closed s live ∧ m = original := by
  rcases h.2 with h | ⟨base, hopen, _⟩
  · exact h
  · rw [hopen.opened_eq] at ho
    exact absurd ho.symm Bool.false_ne_true

/-- A block has been cut, and what backups keep is kept. -/
structure CutKept (s : Areas A.width) (live : List (Area A.width)) (base : BitVec A.width)
    (i n : Nat) (original m : Contents) : Prop extends Cut s live base i n,
    Kept s live base original m where
  backup : s.config.backup = true

namespace CutKept

variable {base : BitVec A.width} {i n : Nat}

/-- What a free block keeps does not matter. -/
theorem modifyBackup (h : CutKept s live base i n original m)
    (f : Block A.width → Option (List UInt8)) :
    CutKept (s.modifyBlock i fun b => { b with backup := f b }) live base i n original m where
  toCut := h.toCut.modifyBackup f
  toKept := h.toKept.modifyBackup h.toSlotted h.mem h.free f
  backup := h.backup

/-- What is under it could not be saved: it is joined to its neighbours again. -/
theorem merge (h : CutKept s live base i n original m) : Intact s.merge live original m := by
  obtain ⟨hopen, hc⟩ := h.toTiled.merge (List.ne_nil_of_mem h.mem)
  refine ⟨?_, Or.inr ⟨base, hopen, hc, h.toKept.merge h.toSlotted⟩⟩
  rw [merge_config, h.backup]

/-- What is under it has been saved, and it is handed out. -/
theorem ready (h : CutKept s live base i n original m)
    (hsaved : (s.block i).backup = some (m.slice (s.block i).address.toNat (s.block i).size)) :
    Ready (fun s live m' => m' = m ∧ Intact s live original m') s live i n m := by
  obtain ⟨hopen, hc, hsize⟩ := h.toCut.handOut
  have hk := h.toKept.handOut h.toSlotted h.mem (h.slice_eq h.toTiled h.mem h.free ▸ hsaved)
  exact ⟨⟨rfl, h.backup, Or.inr ⟨base, hopen, hc, hk _⟩⟩, hsize⟩

end CutKept

/-- Cutting a block does not touch memory. -/
theorem Intact.cut {i n : Nat} (h : Intact s live original m) (hpos : 0 < n)
    (hwords : n % 4 = 0) (hi : s.firstFit? n = some i) :
    ∃ base, CutKept (s.split i n) live base i n original m := by
  obtain ⟨base, hopen, hc, hk⟩ := h.opened (firstFit_opened hi)
  obtain ⟨hmem, hf, _⟩ := firstFit_spec hi
  refine ⟨base, hopen.split hc hpos hwords hi, hk.split hopen.toSlotted hmem hf n, ?_⟩
  rw [split_config]
  exact h.1

/-- Handing out changes no memory. -/
theorem intact_grants (order : Endian) (original m₀ : Contents) :
    Grants ((writable order).env A) (fun m => m = m₀)
      (fun s live m => m = m₀ ∧ Intact s live original m) where
  toTame := writable_tame
  holds := fun h => h.1
  opens := by
    rintro s live _ n ⟨rfl, h⟩ ho
    obtain ⟨hc, rfl⟩ := h.closed ho
    refine writable_tame.wp_openWindow
      (R := fun s' m' => m' = _ ∧ Intact s' live _ m') (fun h => h.1) n
      (wp_mmuOn_still rfl ?_)
    intro r
    refine ⟨⟨rfl, h⟩, ?_⟩
    intro on base _ _ hfits
    obtain ⟨hopen, hcoal⟩ := hc.openAt hfits
    exact ⟨rfl, by rw [openAt_config]; exact h.1,
      Or.inr ⟨base, hopen, hcoal, hc.kept hfits⟩⟩
  cuts := by
    rintro s live _ n i ⟨_, hb, _⟩ _ _ _ hnot
    rw [hb] at hnot
    exact absurd hnot (by simp)
  saves := by
    rintro s live m n i ⟨rfl, h⟩ hpos hwords hi _
    obtain ⟨base, hcut⟩ := h.cut hpos hwords hi
    have hforgot := hcut.modifyBackup fun _ => none
    -- a backup that fails leaves the memory alone, and the cut is undone
    have hfailed : m = m ∧ Intact _ live original m := ⟨rfl, hforgot.merge⟩
    have hP : ((writable order).env A).Lasts (fun v => v = m) fun v => v = m :=
      writable_tame.lasts fun _ hv => hv
    rw [saveBackup]
    refine wp_get (wp_modify (wp_seq (wp_outcome (wp_lift
      (Bench.wp_readBuffer hP rfl ?_ ?_ ?_ ?_)))))
    · rintro bytes _ rfl hbytes _
      refine (hforgot.modifyBackup fun _ => some bytes.val).ready ?_
      rw [block_eq, slot_modifyBlock_self (hforgot.lt_size hforgot.mem), block_eq,
        slot_modifyBlock_self (hcut.lt_size hcut.mem)]
      exact congrArg some hbytes
    · rintro bytes _ rfl hzero
      rw [hcut.size] at hzero
      exact absurd hzero (Nat.ne_of_gt hpos)
    · rintro _ rfl _
      exact hfailed
    · rintro e _ rfl
      exact hfailed

/-! ## Giving back -/

/-- Outside some areas, a part of the memory holds what it held in the beginning. -/
def Still {w : Nat} (window : Nat → Prop) (live₀ : List (Area w)) (original m : Contents) :
    Prop :=
  ∀ x, window x → (∀ a ∈ live₀, ¬a.Covers x) → m x = original x

/-- While blocks are being given back: no handle is new, and the window is the one it was. -/
def Returning (window : Nat → Prop) (live₀ : List (Area A.width)) (original : Contents)
    (s : Areas A.width) (live : List (Area A.width)) (m : Contents) : Prop :=
  s.config.backup = true ∧ (∀ a ∈ live, a ∈ live₀) ∧ (Closed s live ∧ m = original ∨
    ∃ base, Opened s live base ∧ Kept s live base original m ∧
      ∀ x, window x → base.toNat ≤ x ∧ x < base.toNat + s.config.usable)

/-- All of them have been given back, and what is free has been joined. -/
def Returned (window : Nat → Prop) (live₀ : List (Area A.width)) (original : Contents)
    (s : Areas A.width) (live : List (Area A.width)) (m : Contents) : Prop :=
  Returning window live₀ original s live m ∧ s.Coalesced s.order

/-- While things are put back, nothing outside of the window changes. -/
theorem Returning.still (h : Returning window live₀ original s live m) :
    Still window live₀ original m := by
  obtain ⟨_, hsub, ⟨_, rfl⟩ | ⟨base, _, hk, hwindow⟩⟩ := h
  · exact fun _ _ _ => rfl
  · intro x hx hlive
    obtain ⟨hlow, hhigh⟩ := hwindow x hx
    exact hk.outside x hlow hhigh fun a ha => hlive a (hsub a ha)

/-- And the slots are in order. -/
theorem Returning.standing (h : Returning window live₀ original s live m) :
    Standing s live := by
  obtain ⟨_, _, ⟨hc, _⟩ | ⟨base, hopen, _⟩⟩ := h
  · exact Or.inl hc
  · exact Or.inr ⟨base, hopen⟩

/-- A block that is put back is as it was before it was handed out, or the failure is of no concern
    here. -/
theorem wp_restore {i : Nat} (h : Returning window live₀ original s live m) (hi : i ∈ s.order)
    (hf : (s.block i).free = false) :
    ((writable order).env A).wp (Still window live₀ original) (s.restore i).run
      (fun _ m => Returning window live₀ original (s.release i)
        (without live (s.handle i).id) m) m := by
  obtain ⟨hb, hsub, ⟨hc, _⟩ | ⟨base, hopen, hk, hwindow⟩⟩ := h
  · rw [hc.order] at hi
    exact absurd hi List.not_mem_nil
  · have hrelease : ∀ m', (∀ x, (s.handle i).Covers x → m' x = original x) →
        (∀ x, ¬(s.handle i).Covers x → m' x = m x) →
        Returning window live₀ original (s.release i) (without live (s.handle i).id) m' := by
      intro m' hin hout
      refine ⟨hb, fun a ha => hsub a (List.mem_filter.mp ha).1, Or.inr ⟨base,
        hopen.release hi hf, ?_, hwindow⟩⟩
      exact hk.release hopen.toSlotted hi hin hout fun a ha hid =>
        hopen.toTiled.handle_unique ha hid
    have hstill : Still window live₀ original m :=
      Returning.still ⟨hb, hsub, Or.inr ⟨base, hopen, hk, hwindow⟩⟩
    have hP : ((writable order).env A).Lasts (Still window live₀ original) fun v => v = m :=
      writable_tame.lasts fun v hv => hv ▸ hstill
    -- the block lies in the window, so what was saved can be written back
    have hin := hopen.tiles.inside hi
    have hfits := hopen.fits
    have hlen := Contents.length_slice original (s.block i).address.toNat (s.block i).size
    rw [restore, if_pos hb, hk.saved i hi hf]
    refine wp_andThen (wp_outcomeOnly (Bench.wp_writeBuffer hP rfl ?_ ?_ ?_ ?_))
    · rintro _ rfl
      refine hrelease _ ?_ ?_
      · intro x hx
        exact Contents.store_slice_inside hx
      · intro x hx
        exact Contents.store_slice_outside hx
    · rintro _ rfl hnil
      rw [hnil] at hlen
      refine hrelease _ ?_ fun _ _ => rfl
      rintro x ⟨hlow, hhigh⟩
      have h1 : (s.block i).address.toNat ≤ x := hlow
      have h2 : x < (s.block i).address.toNat + (s.block i).size := hhigh
      rw [← hlen] at h2
      exact absurd h2 (Nat.not_lt_of_le h1)
    · rintro _ rfl hwraps
      refine absurd ?_ hwraps
      rw [hlen, Arch.Fits, le_top_iff]
      omega
    · intro e _ _ _ hrefused
      exact hrefused.elim

/-- Releasing with backups puts back block by block, and joins what is free. -/
theorem returned_releases (order : Endian) (window : Nat → Prop) (live₀ : List (Area A.width))
    (original : Contents) :
    Releases ((writable order).env A) (Still window live₀ original)
      (Returning window live₀ original) (Returned window live₀ original) true where
  toTame := writable_tame
  holds := fun h => h.still
  loose := fun h => h.1
  slotted := fun h => h.standing.slotted
  handles := fun h => h.standing.handles
  restores := fun h hi hf _ => wp_restore h hi hf
  drops := by
    intro _ _ _ _ _ _ _ hnot
    exact absurd hnot (by simp)
  merges := by
    -- closed, there is nothing to join; open, joining keeps what the blocks hold
    rintro s live m ⟨hb, hsub, ⟨hc, hm⟩ | ⟨base, hopen, hk, hwindow⟩⟩
    · rw [merge_closed hc.order]
      refine ⟨⟨hb, hsub, Or.inl ⟨hc, hm⟩⟩, ?_⟩
      rw [hc.order]
      exact .nil
    · obtain ⟨hopen', hcoal⟩ := hopen.toTiled.merge hopen.nonempty
      refine ⟨⟨?_, hsub, Or.inr ⟨base, hopen', hk.merge hopen.toSlotted, ?_⟩⟩, hcoal⟩
      · rw [merge_config, hb]
      · rw [merge_config]
        exact hwindow

/-- The window is what lies between its ends. -/
theorem Opened.inWindow_iff {base : BitVec A.width} (h : Opened s live base) {x : Nat} :
    s.InWindow x ↔ base.toNat ≤ x ∧ x < base.toNat + s.config.usable := by
  obtain ⟨b, hhead, hbase⟩ : ∃ b, s.layout.head? = some b ∧ b.address.toNat = base.toNat := by
    have htiles := h.tiles
    rw [layout]
    cases ho : s.order with
    | nil => exact absurd ho h.nonempty
    | cons i rest =>
        rw [ho] at htiles
        exact ⟨_, rfl, htiles.1⟩
  constructor
  · rintro ⟨b', hhead', hlow, hhigh⟩
    obtain rfl := Option.some.inj (hhead.symm.trans hhead')
    rw [hbase] at hlow hhigh
    exact ⟨hlow, hhigh⟩
  · rintro ⟨hlow, hhigh⟩
    rw [← hbase] at hlow hhigh
    exact ⟨b, hhead, hlow, hhigh⟩

/-- The window, if it is open; anywhere, if it is closed. -/
abbrev Watched (s : Areas A.width) (x : Nat) : Prop :=
  s.opened = true → s.InWindow x

/-- Before anything is given back, everything may still be. -/
theorem Intact.returned (h : Intact s live original m) :
    Returned s.Watched live original s live m := by
  obtain ⟨hb, ⟨hc, hm⟩ | ⟨base, hopen, hcoal, hk⟩⟩ := h
  · refine ⟨⟨hb, fun _ ha => ha, Or.inl ⟨hc, hm⟩⟩, ?_⟩
    rw [hc.order]
    exact .nil
  · refine ⟨⟨hb, fun _ ha => ha, Or.inr ⟨base, hopen, hk, ?_⟩⟩, hcoal⟩
    intro x hx
    exact hopen.inWindow_iff.mp (hx hopen.opened_eq)

/-- Then nothing has changed that was not handed out. -/
theorem Intact.still (h : Intact s live original m) : Still s.Watched live original m :=
  h.returned.1.still

/-- After something was given back, what is left is kept as before. -/
theorem Returned.intact (h : Returned window live₀ original s live m) :
    Intact s live original m := by
  obtain ⟨⟨hb, _, ⟨hc, hm⟩ | ⟨base, hopen, hk, _⟩⟩, hcoal⟩ := h
  · exact ⟨hb, Or.inl ⟨hc, hm⟩⟩
  · exact ⟨hb, Or.inr ⟨base, hopen, hcoal, hk⟩⟩

/-- When no handle holds any longer, all of the window holds what it held in the beginning. -/
theorem Returned.whole (h : Returned window live₀ original s [] m) {x : Nat} (hx : window x) :
    m x = original x := by
  obtain ⟨⟨_, _, ⟨_, rfl⟩ | ⟨base, _, hk, hwindow⟩⟩, _⟩ := h
  · rfl
  · obtain ⟨hlow, hhigh⟩ := hwindow x hx
    exact hk.outside x hlow hhigh fun _ ha => absurd ha List.not_mem_nil

/-! ## The operations -/

/-- With the window closed, memory is as it is. -/
theorem Intact.closed_now (hb : s.config.backup = true) (hc : Closed s live) :
    Intact s live m m :=
  ⟨hb, Or.inl ⟨hc, rfl⟩⟩

/-- So it is since the window was opened, which it was not. -/
theorem Intact.closed_since (hb : s.config.backup = true) (hc : Closed s live) :
    Intact s live (s.sinceOpened original m) m := by
  rw [Areas.sinceOpened, hc.opened_eq, if_neg Bool.false_ne_true]
  exact .closed_now hb hc

/-- What the original is told from is taken when the window opens. -/
theorem Intact.sinceOpened (h : Intact s live original m) :
    Intact s live (s.sinceOpened original m) m := by
  cases ho : s.opened with
  | true =>
      rw [Areas.sinceOpened, if_pos ho]
      exact h
  | false => exact .closed_since h.1 (h.closed ho).1

/-- Everything is given back, and the window is closed: all of it holds what it held in the
    beginning. -/
theorem wp_freeAll (h : Intact s live original m) :
    ((writable order).env A).wp (Still s.Watched live original) ((freeAll (A := A)).run s)
      (fun r m => r.2.config.backup = true ∧ Closed r.2 [] ∧
        ∀ x, s.Watched x → m x = original x) m := by
  have hr := returned_releases (A := A) order s.Watched live original
  rw [freeAll]
  refine wp_then (wp_mono (hr.wp_freeAllRestore h.returned) ?_)
  rintro ⟨_, s'⟩ m' h'
  refine ⟨?_, closed_discard h'.1.standing.slotted, fun x hx => h'.whole hx⟩
  show s'.discard.config.backup = true
  rw [discard_config]
  exact h'.intact.1

/-- Another configuration gives everything back first. -/
theorem wp_reconfigure (h : Intact s live original m) (c : AreaConfig A.width) :
    ((writable order).env A).wp (Still s.Watched live original) ((reconfigure (A := A) c).run s)
      (fun r m => r.2.config = c ∧ Closed r.2 [] ∧ ∀ x, s.Watched x → m x = original x) m := by
  rw [reconfigure]
  refine wp_then (wp_mono (wp_freeAll h) ?_)
  rintro ⟨_, s'⟩ m' ⟨_, hc, hm⟩
  refine ⟨rfl, closed_setConfig ?_ c, hm⟩
  rw [hc.order]
  exact hc.slotted

/-- Giving back everything leaves memory as it was found. -/
theorem wp_freeAllRestore (h : Intact s live original m) :
    ((writable order).env A).wp (Still s.Watched live original)
      ((freeAllRestore (A := A) true).run s)
      (fun r m => Intact r.2 [] original m ∧ ∀ x, s.Watched x → m x = original x) m := by
  have hr := returned_releases (A := A) order s.Watched live original
  refine wp_mono (hr.wp_freeAllRestore h.returned) ?_
  rintro ⟨_, s'⟩ m' h'
  exact ⟨h'.intact, fun x hx => h'.whole hx⟩

/-- A request keeps the window intact, and still while it is served. -/
theorem wp_request (h : Intact s live original m) (request : AreaRequest A.width)
    (hputs : request.PutsBack) :
    ((writable order).env A).wp (Still s.Watched live original) (request.perform.run s)
      (fun r m => Still s.Watched live original m ∧
        Intact r.2 (request.live live r.1) (r.2.sinceOpened original m) m) m := by
  have hg := intact_grants (A := A) order original m
  have hr := returned_releases (A := A) order s.Watched live original
  have hissue : ∀ {x : AreaM A (Area A.width)},
      ((writable order).env A).wp (fun m' => m' = m) (x.run.run s)
        (fun r m' => m' = m ∧ Intact r.2 (granted live r.1) original m') m →
      ((writable order).env A).wp (Still s.Watched live original)
        ((do return (← x.run).toOption :
          StateT (Areas A.width) (Dialogue A) (Option (Area A.width))).run s)
        (fun r m => Still s.Watched live original m ∧
          Intact r.2 (live ++ r.1.toList) (r.2.sinceOpened original m) m) m := by
    intro x hx
    refine wp_weaken (fun m' hm => hm ▸ h.still) (wp_mono (wp_issue
      (S := fun s live m' => m' = m ∧ Intact s live original m') hx) ?_)
    rintro ⟨_, s'⟩ m' ⟨rfl, h'⟩
    exact ⟨h.still, h'.sinceOpened⟩
  have hfree : ∀ area : Area A.width,
      ((writable order).env A).wp (Still s.Watched live original)
        ((do
          let _ ← (freeRestore area true).run
          return none :
          StateT (Areas A.width) (Dialogue A) (Option (Area A.width))).run s)
        (fun r m => Still s.Watched live original m ∧
          Intact r.2 (without live area.id) (r.2.sinceOpened original m) m) m := by
    intro area
    refine wp_mono (wp_ignore (hr.wp_freeRestore h.returned area)) ?_
    rintro ⟨_, s'⟩ m' h'
    exact ⟨h'.1.still, h'.intact.sinceOpened⟩
  cases request with
  | alloc size => exact hissue (hg.wp_alloc ⟨rfl, h⟩ size)
  | allocTry size => exact hissue (hg.wp_allocTry ⟨rfl, h⟩ size)
  | allocShrinking preferred least => exact hissue (hg.wp_allocShrinking ⟨rfl, h⟩ preferred least)
  | free area => exact hfree area
  | freeRestore area putBack =>
      -- the request would put back, so it is the same as the one before
      obtain rfl : putBack = true := hputs
      exact hfree area
  | freeAll =>
      refine wp_then (wp_mono (wp_freeAll h) ?_)
      rintro ⟨_, s'⟩ m' ⟨hb, hc, hm⟩
      exact ⟨fun x hx _ => hm x hx, Intact.closed_since hb hc⟩
  | freeAllRestore putBack =>
      obtain rfl : putBack = true := hputs
      refine wp_then (wp_mono (wp_freeAllRestore h) ?_)
      rintro ⟨_, s'⟩ m' ⟨h', hm⟩
      exact ⟨fun x hx _ => hm x hx, h'.sinceOpened⟩
  | setConfig config => exact hputs.elim

/-! ## Every history -/

/-- Changes inside live areas leave the window intact. -/
theorem Intact.between {m' : Contents} (h : Intact s live original m)
    (hsame : ∀ x, s.InWindow x → (∀ a ∈ live, ¬a.Covers x) → m' x = m x) :
    Intact s live (s.sinceOpened original m') m' := by
  obtain ⟨hb, ⟨hc, _⟩ | ⟨base, hopen, hcoal, hk⟩⟩ := h
  · exact Intact.closed_since hb hc
  · refine ⟨hb, Or.inr ⟨base, hopen, hcoal, ?_, ?_⟩⟩
    · rw [Areas.sinceOpened, if_pos hopen.opened_eq]
      intro x hlow hhigh hlive
      rw [hsame x (hopen.inWindow_iff.mpr ⟨hlow, hhigh⟩) hlive]
      exact hk.outside x hlow hhigh hlive
    · rw [Areas.sinceOpened, if_pos hopen.opened_eq]
      exact hk.saved

/-- After every history all areas are kept. -/
theorem Undisturbed.intact (h : Undisturbed A order s live m original) :
    Intact s live original m := by
  induction h with
  | new id config m hb => exact .closed_now hb (closed_new id config)
  | between _ hsame ih => exact ih.between hsame
  | request request hputs _ run ih =>
      exact (wp_done_at (fun _ => writable_tame.lasts fun _ h => h.1)
        (wp_request ih request hputs) run).2
  | reconfigure config hb _ run ih =>
      obtain ⟨hconfig, hc, _⟩ := wp_done_at
        (fun _ => writable_tame.lasts fun _ h x hx _ => h.2.2 x hx) (wp_reconfigure ih config) run
      refine .closed_now ?_ hc
      rw [hconfig]
      exact hb

/-- Giving back some blocks, as a part of giving back all of them. -/
theorem wp_releaseEach (h : Intact s live original m) {done : List Nat}
    (hdone : ∀ i ∈ done, i ∈ s.order) :
    ((writable order).env A).wp (Still s.Watched live original)
      ((releaseEach (A := A) true done).run s)
      (fun r m => Still s.Watched live original m ∧
        Still s.Watched (r.2.handles r.2.order) original m) m := by
  have hr := returned_releases (A := A) order s.Watched live original
  refine wp_mono (hr.wp_releaseEach done h.returned.1 hdone) ?_
  rintro ⟨_, s'⟩ m' ⟨_, live', h'⟩
  have hlater : Returning s.Watched live' original s' live' m' :=
    ⟨h'.1, fun _ ha => ha, h'.2.2⟩
  refine ⟨h'.still, ?_⟩
  intro x hx hlive
  exact hlater.still x hx fun a ha => hlive a ((hr.handles h').mem_iff.mp ha)

/-- What backups ensure, from a moment between two requests on. -/
structure Invisible (order : Endian) (s : Areas A.width) (live : List (Area A.width))
    (m original : Contents) : Prop where
  /-- Outside the live areas, the window holds what it held when it was opened. -/
  outside : Still s.InWindow live original m
  /-- What was under a live area is saved. -/
  saved : ∀ a ∈ live, ∃ i, s.slotOf? a.id = some i ∧
    (s.block i).backup = some (original.slice a.address.toNat a.size)
  /-- At every moment of the next request. -/
  serving : ∀ (request : AreaRequest A.width) d m', request.PutsBack →
    ((writable order).env A).Reaches (request.perform.run s) m d m' →
    Still s.Watched live original m'
  /-- Among areas that are given back together, those that have been given back are live no
      longer. -/
  releasing : ∀ done todo s' m', s.order = done ++ todo →
    ((writable order).env A).Reaches ((releaseEach true done).run s) m (.done ((), s')) m' →
    Still s.Watched (s'.handles s'.order) original m'
  /-- In the end, ALL of the window holds what it held when it was opened. -/
  freeAll : ∀ s' m',
    ((writable order).env A).Reaches (freeAll.run s) m (.done ((), s')) m' →
    ∀ x, s.Watched x → m' x = original x
  freeAllRestore : ∀ s' m',
    ((writable order).env A).Reaches ((freeAllRestore true).run s) m (.done ((), s')) m' →
    ∀ x, s.Watched x → m' x = original x
  /-- Whatever the new configuration is. -/
  reconfigure : ∀ config s' m',
    ((writable order).env A).Reaches ((reconfigure config).run s) m (.done ((), s')) m' →
    ∀ x, s.Watched x → m' x = original x
  /-- At every moment before that. -/
  reconfiguring : ∀ config d m',
    ((writable order).env A).Reaches ((Areas.reconfigure config).run s) m d m' →
    Still s.Watched live original m'

/-- What is kept for an area is what was there when it was handed out. -/
theorem Intact.saved (h : Intact s live original m) {a : Area A.width} (ha : a ∈ live) :
    ∃ i, s.slotOf? a.id = some i ∧
      (s.block i).backup = some (original.slice a.address.toNat a.size) := by
  obtain ⟨_, ⟨hc, _⟩ | ⟨base, hopen, _, hk⟩⟩ := h
  · rw [hc.live] at ha
    exact absurd ha List.not_mem_nil
  · obtain ⟨i, hi, hf, rfl⟩ := mem_handles.mp (hopen.handles.mem_iff.mp ha)
    exact ⟨i, slotOf?_handle hopen.toSlotted hi hf, hk.saved i hi hf⟩

end Invariant

/-- BACKUPS MAKE WORKING AREAS INVISIBLE, after every history. -/
theorem Undisturbed.invisible {A : Arch} {order : Endian} {s : Areas A.width}
    {live : List (Area A.width)} {m original : Contents}
    (h : Undisturbed A order s live m original) : Invisible order s live m original where
  outside := fun x hx => h.intact.still x fun _ => hx
  saved := fun _ ha => h.intact.saved ha
  serving := by
    intro request d m' hputs run
    exact wp_at (fun _ => writable_tame.lasts fun _ h => h.1)
      (wp_request h.intact request hputs) run
  releasing := by
    intro done todo s' m' horder run
    have hdone : ∀ i ∈ done, i ∈ s.order := by
      intro i hi
      rw [horder]
      exact List.mem_append_left todo hi
    exact (wp_done_at (fun _ => writable_tame.lasts fun _ h => h.1)
      (wp_releaseEach h.intact hdone) run).2
  freeAll := by
    intro s' m' run
    exact (wp_done_at (fun _ => writable_tame.lasts fun _ h x hx _ => h.2.2 x hx)
      (wp_freeAll h.intact) run).2.2
  freeAllRestore := by
    intro s' m' run
    exact (wp_done_at (fun _ => writable_tame.lasts fun _ h x hx _ => h.2 x hx)
      (wp_freeAllRestore h.intact) run).2
  reconfigure := by
    intro config s' m' run
    exact (wp_done_at (fun _ => writable_tame.lasts fun _ h x hx _ => h.2.2 x hx)
      (wp_reconfigure h.intact config) run).2.2
  reconfiguring := by
    intro config d m' run
    exact wp_at (fun _ => writable_tame.lasts fun _ h x hx _ => h.2.2 x hx)
      (wp_reconfigure h.intact config) run

/-- Areas of a plain core, with a window of 64 bytes, and with backups. -/
def guarded : Areas (plainCore 32).width where
  id := 1
  config := { size := 64, phys := some 0x1000, backup := true }

/-- Their first handle. -/
def guardedArea : Area (plainCore 32).width where
  id := { owner := 1, index := 0, generation := 0 }
  address := 0x1000
  size := 16

/-- A memory where each byte is its address. -/
def counting : Contents := UInt8.ofNat

/-- The areas after that handle was issued. -/
def guardedAfter : Areas (plainCore 32).width :=
  ((((guarded.openAt 0x1000).split 0 16).modifyBlock 0 ({ · with backup := none })).modifyBlock 0
    ({ · with backup := some (counting.slice 0x1000 16) })).handOut 0

/-- One area, with a backup. -/
theorem guarded_undisturbed :
    Undisturbed (plainCore 32) .little guardedAfter [guardedArea] counting counting := by
  refine @Undisturbed.request (plainCore 32) .little guarded guardedAfter [] counting counting
    counting (some guardedArea) (.alloc 14) trivial (.new 1 guarded.config counting rfl) ?_
  -- the memory management unit, and the window
  refine .answer false rfl (.answer () rfl ?_)
  -- what is under the new area
  refine .answer () rfl ?_
  refine .answer (.ok ⟨counting.slice 0x1000 16, Contents.length_slice _ _ _⟩) ⟨rfl, rfl⟩ ?_
  -- the new handle, and the two blocks
  refine .answer () rfl (.answer () rfl (.answer () rfl ?_))
  exact .refl _ _

/-- The same, after the program has written over it. -/
theorem guarded_overwritten : Undisturbed (plainCore 32) .little guardedAfter [guardedArea]
    (counting.store 0x1000 (List.replicate 16 0xff)) counting := by
  refine .between guarded_undisturbed ?_
  intro x _ hx
  refine Contents.store_outside ?_
  have hnot : ¬(0x1000 ≤ x ∧ x < 0x1000 + 16) := hx guardedArea List.mem_cons_self
  rw [List.length_replicate]
  omega

/-- What was overwritten is put back. -/
theorem Undisturbed.invisible_overwritten :
    Undisturbed (plainCore 32) .little guardedAfter [guardedArea]
      (counting.store 0x1000 (List.replicate 16 0xff)) counting ∧
    Invisible .little guardedAfter [guardedArea]
      (counting.store 0x1000 (List.replicate 16 0xff)) counting :=
  ⟨guarded_overwritten, Undisturbed.invisible guarded_overwritten⟩

end Areas

end DebugLink
