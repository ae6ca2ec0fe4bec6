import DebugLink.Arch.Plain
import DebugLink.Proofs.Area.Operations
import Mathlib.Data.List.Nodup

/-!
# What holds of every reachable arena

`Reachable` is every state that the areas of a target come to by any sequence of requests,
whatever the target answers: reads, writes and questions about the memory management unit may
fail, or answer anything.  Next to the areas it keeps the handles that were issued and not yet
released or invalidated, and what was last learned about the memory management unit.

`Reachable.laid`: an open window is TILED.  Live areas do not overlap, do not leave the window,
and keep the address and the size that their handles were issued with.
-/

namespace DebugLink

open Environment

namespace Areas

/-- Any target at all.  The state is what was last learned about the memory management unit; a
    target that cannot tell counts as one where it is off. -/
def anyTarget (A : Arch) : Environment A Bool where
  moves _ _ := False
  answers mmu op answer mmu' :=
    match op, answer with
    | .feature .mmu, supported => mmu' = (supported && mmu)
    | .call .mmuEnabled, .ok on => mmu' = on
    | _, _ => mmu' = mmu

/-- The areas, the handles that hold, and the last sample of the memory management unit. -/
inductive Reachable (A : Arch) : Areas A.width → List (Area A.width) → Bool → Prop where
  | new (id : Nat) (config : AreaConfig A.width) (mmu : Bool) : Reachable A { id, config } [] mmu
  | request {s s' : Areas A.width} {live : List (Area A.width)} {mmu mmu' : Bool}
      {issued : Option (Area A.width)} (request : AreaRequest A.width) :
      Reachable A s live mmu →
      (anyTarget A).Reaches (request.perform.run s) mmu (.done (issued, s')) mmu' →
      Reachable A s' (request.live live issued) mmu'

/-- An open window, with the handles that hold, and what the memory management unit was like when
    it was opened. -/
structure Laid {w : Nat} (s : Areas w) (live : List (Area w)) (mmu : Bool) : Prop where
  nonempty : s.layout ≠ []
  /-- It begins where it was configured to. -/
  base : s.layout.head?.map (·.address) = s.config.window? mmu
  /-- Each block begins where the one before it ends, so no address is cut off at the top of the
      address space. -/
  consecutive : s.layout.IsChain fun a b => b.address.toNat = a.address.toNat + a.size
  sum : (s.layout.map (·.size)).sum = s.config.usable
  words : ∀ b ∈ s.layout, b.size % 4 = 0
  positive : ∀ b ∈ s.layout, 0 < b.size ∨ s.config.usable = 0
  coalesced : s.layout.IsChain fun a b => ¬(a.free = true ∧ b.free = true)
  /-- The handles are, one by one, those on the blocks that are not free, with the address and
      the size that the blocks have now. -/
  corresponds : live.Perm (s.handles s.order)
  distinct : (live.map (·.id)).Nodup
  apart : live.Pairwise fun a b =>
    a.address.toNat + a.size ≤ b.address.toNat ∨ b.address.toNat + b.size ≤ a.address.toNat
  inside : ∀ base, s.config.window? mmu = some base → ∀ a ∈ live,
    base.toNat ≤ a.address.toNat ∧
      a.address.toNat + a.size ≤ base.toNat + s.config.usable ∧
      base.toNat + s.config.usable ≤ 2 ^ w

/-! ## The parts -/

section Parts

variable {A : Arch} {α : Type} {s : Areas A.width} {live : List (Area A.width)} {mmu : Bool}

/-- Of any target, nothing is claimed on the way. -/
abbrev Anything : Bool → Prop := fun _ => True

/-- A target of which nothing is known keeps its mind when the host only says something. -/
theorem anyTarget_tame : Tame (anyTarget A) where
  still := fun h => h
  note := fun h => h

/-- Whatever it answers is taken into account. -/
theorem wp_any {op : Op A} {next : op.Answer → Dialogue A α} {Q : α → Bool → Prop}
    (h : ∀ a mmu', (anyTarget A).answers mmu op a mmu' →
      (anyTarget A).wp Anything (next a) Q mmu') :
    (anyTarget A).wp Anything (.ask op next) Q mmu := by
  have hP : (anyTarget A).Lasts Anything fun v => v = mmu :=
    anyTarget_tame.lasts fun _ _ => trivial
  refine wp_ask hP rfl ?_
  rintro _ a mmu' rfl ha
  exact h a mmu' ha

/-- A note changes nothing. -/
theorem wp_note {n : Note} {next : Unit → Dialogue A α} {Q : α → Bool → Prop}
    (h : (anyTarget A).wp Anything (next ()) Q mmu) :
    (anyTarget A).wp Anything (.ask (.note n) next) Q mmu :=
  anyTarget_tame.wp_note trivial h

/-- The unit is on or off, and that is the last that was learned; or the question failed. -/
theorem wp_mmuOn {Q : Except Error Bool → Bool → Prop} (ok : ∀ on, Q (.ok on) on)
    (err : ∀ e, Q (.error e) mmu) : (anyTarget A).wp Anything (mmuOn (A := A)).run Q mmu := by
  refine wp_any ?_
  rintro (_ | _) mmu' ha
  · have ha : mmu' = false := ha
    subst ha
    exact ok false
  · have ha : mmu' = mmu := ha
    subst ha
    refine wp_any ?_
    rintro (e | on) mmu' ha
    · have ha : mmu' = _ := ha
      subst ha
      exact err _
    · have ha : mmu' = on := ha
      subst ha
      exact ok mmu'

/-- A range is checked without it. -/
theorem wp_checkFits {a : A.Addr} {n : Nat} {Q : Except Error Unit → Bool → Prop}
    (ok : Q (.ok ()) mmu) (wraps : Q (.error (.addressWrap a.toNat n)) mmu) :
    (anyTarget A).wp Anything (checkFits a n).run Q mmu := by
  rw [checkFits]
  split
  · exact ok
  · exact wp_note wraps

/-- What was read, and whether it was, says nothing about the memory management unit. -/
theorem wp_readBuffer {a : A.Addr} {n : Nat} {Q : Except Error (Bytes n) → Bool → Prop}
    (h : ∀ r, Q r mmu) : (anyTarget A).wp Anything (readBuffer a n).run Q mmu := by
  rw [readBuffer]
  refine wp_andThen (wp_note ?_)
  show (anyTarget A).wp Anything
    (ExceptT.run (if h : n = 0 then pure ⟨[], h.symm⟩ else _)) Q mmu
  split
  · exact h _
  · refine wp_andThen (wp_checkFits ?_ ?_)
    · refine wp_any ?_
      rintro (e | bytes) mmu' ha
      · obtain rfl : mmu' = mmu := ha
        exact h _
      · obtain rfl : mmu' = mmu := ha
        exact h _
    · exact h _

/-- Nor does what was written. -/
theorem wp_writeBuffer {a : A.Addr} {bs : List UInt8} {Q : Except Error Unit → Bool → Prop}
    (h : ∀ r, Q r mmu) : (anyTarget A).wp Anything (writeBuffer a bs).run Q mmu := by
  rw [writeBuffer]
  refine wp_andThen (wp_note ?_)
  show (anyTarget A).wp Anything (ExceptT.run (if bs = [] then pure () else _)) Q mmu
  split
  · exact h _
  · refine wp_andThen (wp_checkFits ?_ ?_)
    · refine wp_any ?_
      rintro (e | _) mmu' ha
      · obtain rfl : mmu' = mmu := ha
        exact h _
      · obtain rfl : mmu' = mmu := ha
        exact h _
    · exact h _

end Parts

section Invariant

variable {A : Arch} {s : Areas A.width} {live : List (Area A.width)} {mmu : Bool}

/-- What is known between operations. -/
def Settled (s : Areas A.width) (live : List (Area A.width)) (mmu : Bool) : Prop :=
  Closed s live ∨ ∃ base, s.config.window? mmu = some base ∧ Opened s live base ∧
    s.Coalesced s.order

/-- What is known while blocks are being given back. -/
def Loose (s : Areas A.width) (live : List (Area A.width)) (mmu : Bool) : Prop :=
  Closed s live ∨ ∃ base, s.config.window? mmu = some base ∧ Opened s live base

/-- An open window is tiled between operations, and its neighbours are joined. -/
theorem Settled.opened (h : Settled s live mmu) (ho : s.opened = true) :
    ∃ base, s.config.window? mmu = some base ∧ Opened s live base ∧ s.Coalesced s.order := by
  rcases h with hc | h
  · rw [hc.opened_eq] at ho
    exact absurd ho Bool.false_ne_true
  · exact h

/-- Without a window there are no areas. -/
theorem Settled.closed (h : Settled s live mmu) (ho : s.opened = false) : Closed s live := by
  rcases h with hc | ⟨base, _, hopen, _⟩
  · exact hc
  · rw [hopen.opened_eq] at ho
    exact absurd ho.symm Bool.false_ne_true

/-- Between operations the slots are in order. -/
theorem Settled.standing (h : Settled s live mmu) : Standing s live :=
  h.imp_right fun ⟨base, _, hopen, _⟩ => ⟨base, hopen⟩

/-- It does not matter in which order the handles are listed. -/
theorem Settled.perm {held : List (Area A.width)} (h : Settled s live mmu) (hp : held.Perm live) :
    Settled s held mmu := by
  rcases h with hc | ⟨base, hw, hopen, hcoal⟩
  · exact Or.inl ⟨hc.order, (hc.live ▸ hp).eq_nil, hc.slotted⟩
  · have htiled : Tiled s s.order held base :=
      ⟨hopen.toSlotted, hopen.toTiling, hp.trans hopen.handles⟩
    exact Or.inr ⟨base, hw, ⟨htiled, hopen.nonempty⟩, hcoal⟩

/-- So they are while blocks are being given back. -/
theorem Loose.standing (h : Loose s live mmu) : Standing s live := by
  rcases h with hc | ⟨base, _, hopen⟩
  · exact Or.inl hc
  · exact Or.inr ⟨base, hopen⟩

/-- One block more is given back, and its handle does not hold any longer. -/
theorem Loose.release (h : Loose s live mmu) {i : Nat} (hi : i ∈ s.order)
    (hf : (s.block i).free = false) :
    Loose (s.release i) (without live (s.handle i).id) mmu := by
  rcases h with hc | ⟨base, hw, hopen⟩
  · rw [hc.order] at hi
    exact absurd hi List.not_mem_nil
  · exact Or.inr ⟨base, hw, hopen.release hi hf⟩

/-- A block that was cut to size is ready to be handed over. -/
theorem ready_of_cut {base : BitVec A.width} {i n : Nat} (hw : s.config.window? mmu = some base)
    (h : Cut s live base i n) : Ready Settled s live i n mmu := by
  obtain ⟨hopen, hc, hsize⟩ := h.handOut
  exact ⟨Or.inr ⟨base, hw, hopen, hc⟩, hsize⟩

/-- The window that is opened is the one that was configured for the answer; if it wraps around, it
    stays closed. -/
theorem wp_openWindow (h : Settled s live mmu) (ho : s.opened = false) (n : Nat) :
    (anyTarget A).wp Anything ((openWindow n).run.run s) (fun r mmu => Settled r.2 live mmu)
      mmu := by
  have hc := h.closed ho
  refine anyTarget_tame.wp_openWindow (R := fun s mmu => Settled s live mmu)
    (fun _ => trivial) n (wp_mmuOn ?_ ?_)
  · intro on
    refine ⟨Or.inl hc, ?_⟩
    rintro on' base hon hw hfits
    obtain rfl := Except.ok.inj hon
    obtain ⟨hopen, hcoal⟩ := hc.openAt hfits
    exact Or.inr ⟨base, by rw [openAt_config, hw], hopen, hcoal⟩
  · intro e
    exact ⟨Or.inl hc, fun _ _ => nofun⟩

/-- An area that is asked for leaves things settled, also if its backup fails. -/
theorem settled_grants : Grants (anyTarget A) Anything (Settled (A := A)) where
  toTame := anyTarget_tame
  holds := fun _ => trivial
  opens := fun h ho => wp_openWindow h ho _
  cuts := by
    intro s live mmu n i h hpos hwords hi _
    obtain ⟨base, hw, hopen, hc⟩ := h.opened (firstFit_opened hi)
    exact ready_of_cut (by rw [split_config, hw]) (hopen.split hc hpos hwords hi)
  saves := by
    intro s live mmu n i h hpos hwords hi _
    obtain ⟨base, hw, hopen, hc⟩ := h.opened (firstFit_opened hi)
    have hcut := (hopen.split hc hpos hwords hi).modifyBackup fun _ => none
    rw [saveBackup]
    refine wp_get (wp_modify (wp_seq (wp_outcome (wp_lift (wp_readBuffer ?_)))))
    rintro (e | bytes)
    · -- the backup could not be made: what was cut is joined again
      obtain ⟨hopen', hc'⟩ := hcut.toTiled.merge (List.ne_nil_of_mem hcut.mem)
      have hconfig : ∀ f, (((s.split i n).modifyBlock i f).merge).config = s.config := by
        intro f
        rw [merge_config]
        exact split_config s i n
      exact Or.inr ⟨base, by rw [hconfig, hw], hopen', hc'⟩
    · -- it was made, and the block keeps it
      refine ready_of_cut ?_ (hcut.modifyBackup fun _ => some bytes.val)
      show (s.split i n).config.window? mmu = some base
      rw [split_config, hw]

/-- So does one that is given back, whether or not memory could be put back. -/
theorem settled_releases (putBack : Bool) :
    Releases (anyTarget A) Anything (Loose (A := A)) Settled putBack where
  toTame := anyTarget_tame
  holds := fun _ => trivial
  loose := by
    rintro s live mmu (hc | ⟨base, hw, hopen, _⟩)
    · exact Or.inl hc
    · exact Or.inr ⟨base, hw, hopen⟩
  slotted := fun h => h.standing.slotted
  handles := fun h => h.standing.handles
  restores := by
    intro s live mmu i h hi hf _
    have hk := h.release hi hf
    -- put back or not, the block is given back
    rw [restore]
    split
    · split
      · exact hk
      · refine wp_andThen (wp_outcomeOnly (wp_writeBuffer ?_))
        rintro (e | _)
        · exact wp_andThen (wp_note hk)
        · exact hk
    · exact hk
  drops := fun h hi hf _ => h.release hi hf
  merges := by
    rintro s live mmu (hc | ⟨base, hw, hopen⟩)
    · rw [merge_closed hc.order]
      exact Or.inl hc
    · obtain ⟨hopen', hc'⟩ := hopen.toTiled.merge hopen.nonempty
      exact Or.inr ⟨base, by rw [merge_config, hw], hopen', hc'⟩

/-- Whatever else is kept when a block is released, and when neighbours are joined. -/
theorem settled_releases_with {P : Areas A.width → Prop}
    (release : ∀ {s i}, Slotted s s.order → i ∈ s.order → (s.block i).free = false → P s →
      P (s.release i))
    (merge : ∀ {s}, Slotted s s.order → P s → P s.merge) (putBack : Bool) :
    Releases (anyTarget A) Anything (fun s live mmu => Loose s live mmu ∧ P s)
      (fun s live mmu => Settled s live mmu ∧ P s) putBack where
  toTame := anyTarget_tame
  holds := fun _ => trivial
  loose := fun h => ⟨(settled_releases putBack).loose h.1, h.2⟩
  slotted := fun h => h.1.standing.slotted
  handles := fun h => h.1.standing.handles
  restores := by
    rintro s live mmu i ⟨h, hP⟩ hi hf hp
    refine wp_mono ((settled_releases putBack).restores h hi hf hp) ?_
    intro _ _ hk
    exact ⟨hk, release h.standing.slotted hi hf hP⟩
  drops := by
    rintro s live _ i ⟨h, hP⟩ hi hf hp
    exact ⟨(settled_releases putBack).drops h hi hf hp, release h.standing.slotted hi hf hP⟩
  merges := by
    rintro s live _ ⟨h, hP⟩
    exact ⟨(settled_releases putBack).merges h, merge h.standing.slotted hP⟩

/-- Giving back everything, and closing the window. -/
theorem settled_freeAll (h : Settled s live mmu) :
    (anyTarget A).wp Anything ((freeAll (A := A)).run s) (fun r mmu => Settled r.2 [] mmu) mmu := by
  refine wp_then (wp_mono ((settled_releases true).wp_freeAllRestore h) ?_)
  rintro ⟨_, s'⟩ mmu' h'
  exact Or.inl (closed_discard h'.standing.slotted)

/-- Every request leaves things settled. -/
theorem wp_perform (h : Settled s live mmu) (request : AreaRequest A.width) :
    (anyTarget A).wp Anything (request.perform.run s)
      (fun r mmu => Settled r.2 (request.live live r.1) mmu) mmu :=
  wp_perform_of settled_grants settled_releases
    (fun h => Or.inl (closed_discard h.standing.slotted))
    (fun config h => Or.inl (closed_setConfig h.standing.slotted config)) h request

/-- So they are after any number of requests. -/
theorem Reachable.settled (h : Reachable A s live mmu) : Settled s live mmu := by
  induction h with
  | new id config mmu => exact Or.inl (closed_new id config)
  | @request s s' live mmu mmu' issued request _ run ih =>
      exact (anyTarget_tame.reached (fun _ _ _ => trivial) (wp_perform ih request) run :)

end Invariant

/-! ## What it means -/

section Layout

variable {w : Nat} {s : Areas w} {live : List (Area w)} {base : BitVec w}

/-- A tiled window is laid, as its layout shows. -/
theorem Opened.layout_laid (h : Opened s live base) (hc : s.Coalesced s.order) {mmu : Bool}
    (hw : s.config.window? mmu = some base) : Laid s live mmu where
  nonempty := by
    intro hnil
    exact h.nonempty (List.map_eq_nil_iff.mp hnil)
  base := by
    rw [hw, layout]
    have htiles := h.tiles
    -- the first block begins where the window does
    cases ho : s.order with
    | nil => exact absurd ho h.nonempty
    | cons i rest =>
        rw [ho] at htiles
        exact congrArg some (BitVec.eq_of_toNat_eq htiles.1)
  consecutive := (List.isChain_map _).mpr h.tiles.chain
  sum := by
    rw [layout, List.map_map]
    exact Nat.add_left_cancel h.tiles.sum
  words := by
    intro b hb
    obtain ⟨i, hi, rfl⟩ := List.mem_map.mp hb
    exact h.words i hi
  positive := by
    intro b hb
    obtain ⟨i, hi, rfl⟩ := List.mem_map.mp hb
    exact h.pos i hi
  coalesced := (List.isChain_map _).mpr hc
  corresponds := h.handles
  distinct := by
    refine (h.handles.map _).nodup_iff.mpr ?_
    refine List.Nodup.of_map AreaId.index ?_
    -- an id names the slot of its block, and no slot is listed twice
    have hindex : ((s.handles s.order).map (·.id)).map AreaId.index =
        s.order.filter fun i => !(s.block i).free := by
      rw [handles, List.map_map, List.map_map]
      exact List.map_id _
    rw [hindex]
    exact h.nodup.filter _
  apart := by
    refine (h.handles.pairwise_iff fun hab => hab.symm).mpr ?_
    refine List.pairwise_map.mpr ?_
    exact (h.tiles.pairwise.filter _).imp fun hij => Or.inl hij
  inside := by
    intro base' hw' a ha
    obtain rfl : base' = base := Option.some.inj (hw'.symm.trans hw)
    obtain ⟨i, hi, _, rfl⟩ := mem_handles.mp (h.handles.mem_iff.mp ha)
    obtain ⟨hlow, hhigh⟩ := h.tiles.inside hi
    exact ⟨hlow, hhigh, h.fits⟩

end Layout

/-- No two handles that hold have the same id. -/
theorem Settled.distinct {A : Arch} {s : Areas A.width} {live : List (Area A.width)} {mmu : Bool}
    (h : Settled s live mmu) : (live.map (·.id)).Nodup := by
  rcases h with hc | ⟨base, hw, hopen, hc⟩
  · rw [hc.live]
    exact List.nodup_nil
  · exact (hopen.layout_laid hc hw).distinct

/-- EVERY OPEN WINDOW IS TILED, whatever was asked and whatever the target answered. -/
theorem Reachable.laid {A : Arch} {s : Areas A.width} {live : List (Area A.width)} {mmu : Bool}
    (h : Reachable A s live mmu) (ho : s.opened = true) : Laid s live mmu := by
  obtain ⟨base, hw, hopen, hc⟩ := h.settled.opened ho
  exact hopen.layout_laid hc hw

/-- Areas of a plain core, with a window of 64 bytes. -/
def sample : Areas (plainCore 32).width where
  id := 1
  config := { size := 64, phys := some 0x1000 }

/-- Its first handle. -/
def sampleArea : Area (plainCore 32).width where
  id := { owner := 1, index := 0, generation := 0 }
  address := 0x1000
  size := 16

/-- The areas after that handle was issued. -/
def sampleAfter : Areas (plainCore 32).width :=
  ((sample.openAt 0x1000).split 0 16).handOut 0

theorem sample_reaches : Reachable (plainCore 32) sampleAfter [sampleArea] false := by
  refine @Reachable.request (plainCore 32) sample sampleAfter [] true false (some sampleArea)
    (.alloc 14) (.new 1 sample.config true) ?_
  -- the memory management unit, and the window
  refine .answer false rfl (.answer () rfl ?_)
  -- the new handle, and the two blocks
  refine .answer () rfl (.answer () rfl (.answer () rfl ?_))
  exact .refl _ _

theorem Reachable.laid_sample :
    sampleAfter.opened = true ∧ Laid sampleAfter [sampleArea] false :=
  ⟨by decide, Reachable.laid sample_reaches (by decide)⟩

end Areas

end DebugLink
