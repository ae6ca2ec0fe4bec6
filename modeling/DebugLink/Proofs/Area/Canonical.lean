import DebugLink.Proofs.Area.Reachable
import DebugLink.Proofs.Area.Lockstep

/-!
# The layout is canonical

What an open window shows is DETERMINED by its configuration, by where it begins, and by the blocks
that are not free: between these everything is free, and no two neighbours are.

* `Packed.unique` is the reason, for any two rows of blocks: an induction from the left.  The two
  first blocks are the same, since a block that is not free is in both rows (`Packed.live`), and of
  two that are free neither is longer than the other (`Packed.le`).
* `Reachable.twins` says that whatever is reached is firm, as an arena is its own twin in lockstep.
* `twins_of_same` puts them together: two arenas with the same live blocks are twins.
-/

namespace DebugLink.Areas

open Dialogue Environment

/-! ## Rows of blocks -/

section Rows

variable {w : Nat} {s t : Areas w} {order order' : List Nat} {i j a z : Nat}

/-- The blocks of some slots fill the addresses from `a` to `z`, without an empty one, and no two
    neighbours are free. -/
structure Packed (s : Areas w) (a : Nat) (order : List Nat) (z : Nat) : Prop where
  tiles : s.Tiles a order z
  coalesced : s.Coalesced order
  positive : ∀ i ∈ order, 0 < (s.block i).size

/-- The same blocks are handed out. -/
def SameLive (s t : Areas w) (order order' : List Nat) : Prop :=
  ∀ b : Block w, b.free = false → (b ∈ order.map s.block ↔ b ∈ order'.map t.block)

theorem SameLive.symm (h : SameLive s t order order') : SameLive t s order' order :=
  fun b hb => (h b hb).symm

namespace Packed

theorem tail (h : Packed s a (i :: order) z) : Packed s (a + (s.block i).size) order z where
  tiles := h.tiles.2
  coalesced := List.IsChain.tail h.coalesced
  positive := fun j hj => h.positive j (List.mem_cons_of_mem i hj)

/-- All but the first block lie behind it. -/
theorem behind (h : Packed s a (i :: order) z) {b : Block w} (hb : b ∈ order.map s.block) :
    a + (s.block i).size ≤ b.address.toNat := by
  obtain ⟨j, hj, rfl⟩ := List.mem_map.mp hb
  exact (h.tiles.2.inside hj).1

/-- If the first block is not free, it is the first one of the other row. -/
theorem live (h : Packed s a (i :: order) z) (h' : Packed t a (j :: order') z)
    (hlive : SameLive s t (i :: order) (j :: order')) (hf : (s.block i).free = false) :
    s.block i = t.block j := by
  have hmem := (hlive (s.block i) hf).mp List.mem_cons_self
  rcases List.mem_cons.mp hmem with heq | hrest
  · exact heq
  · have hbehind := h'.behind hrest
    have hpos := h'.positive j List.mem_cons_self
    have hfirst := h.tiles.1
    omega

/-- If the first blocks are both free, neither is longer: what follows the shorter one is not free,
    hence in the other row as well. -/
theorem le (h : Packed s a (i :: order) z) (h' : Packed t a (j :: order') z)
    (hlive : SameLive s t (i :: order) (j :: order')) (hf : (s.block i).free = true)
    (hf' : (t.block j).free = true) : (s.block i).size ≤ (t.block j).size := by
  by_contra hlt
  have hz := h.tiles.2.le
  cases order' with
  | nil =>
      have hend : a + (t.block j).size = z := h'.tiles.2
      omega
  | cons k rest =>
      have hk : (t.block k).free = false := by
        have hapart := (List.isChain_cons_cons.mp h'.coalesced).1
        cases hkf : (t.block k).free with
        | false => rfl
        | true => exact absurd ⟨hf', hkf⟩ hapart
      have haddress := h'.tail.tiles.1
      have hmem := (hlive (t.block k) hk).mpr (List.mem_cons_of_mem _ List.mem_cons_self)
      rcases List.mem_cons.mp hmem with heq | hrest
      · rw [heq, hf] at hk
        exact absurd hk (by simp)
      · have hbehind := h.behind hrest
        omega

/-- The first blocks show the same. -/
theorem head (h : Packed s a (i :: order) z) (h' : Packed t a (j :: order') z)
    (hlive : SameLive s t (i :: order) (j :: order')) : s.face i = t.face j := by
  cases hf : (s.block i).free with
  | false => exact congrArg Block.shown (h.live h' hlive hf)
  | true =>
      cases hf' : (t.block j).free with
      | false => exact congrArg Block.shown (h'.live h hlive.symm hf').symm
      | true =>
          have haddress : (s.block i).address = (t.block j).address :=
            BitVec.eq_of_toNat_eq (h.tiles.1.trans h'.tiles.1.symm)
          have hsize : (s.block i).size = (t.block j).size :=
            Nat.le_antisymm (h.le h' hlive hf hf') (h'.le h hlive.symm hf' hf)
          rw [face, face, Block.shown_free hf, Block.shown_free hf', haddress, hsize, hf, hf']

/-- What is not the first block of one row is not the first one of the other. -/
theorem rest (h : Packed s a (i :: order) z) (h' : Packed t a (j :: order') z)
    (hlive : SameLive s t (i :: order) (j :: order')) : SameLive s t order order' := by
  have hskip : ∀ {s t : Areas w} {order order' : List Nat} {i j : Nat},
      Packed s a (i :: order) z → Packed t a (j :: order') z →
      SameLive s t (i :: order) (j :: order') → ∀ b : Block w, b.free = false →
      b ∈ order.map s.block → b ∈ order'.map t.block := by
    intro s t order order' i j h h' hlive b hb hmem
    have hmem' := (hlive b hb).mp (List.mem_cons_of_mem _ hmem)
    rcases List.mem_cons.mp hmem' with rfl | hrest
    · have hbehind := h.behind hmem
      have hpos := h.positive i List.mem_cons_self
      have hfirst := h'.tiles.1
      omega
    · exact hrest
  exact fun b hb => ⟨hskip h h' hlive b hb, hskip h' h hlive.symm b hb⟩

/-- TWO ROWS WITH THE SAME LIVE BLOCKS SHOW THE SAME. -/
theorem unique : ∀ {order order' : List Nat} {a : Nat}, Packed s a order z → Packed t a order' z →
    SameLive s t order order' → order.map s.face = order'.map t.face := by
  intro order
  induction order with
  | nil =>
      intro order' a h h' _
      cases order' with
      | nil => rfl
      | cons j order' =>
          have hend : a = z := h.tiles
          have hle := h'.tiles.2.le
          have hpos := h'.positive j List.mem_cons_self
          omega
  | cons i order ih =>
      intro order' a h h' hlive
      cases order' with
      | nil =>
          have hend : a = z := h'.tiles
          have hle := h.tiles.2.le
          have hpos := h.positive i List.mem_cons_self
          omega
      | cons j order' =>
          have hhead := h.head h' hlive
          have hsize : (s.block i).size = (t.block j).size := by
            rw [← Block.shown_size, ← (t.block j).shown_size]
            exact congrArg Block.size hhead
          have htail := ih h.tail (hsize ▸ h'.tail) (h.rest h' hlive)
          rw [List.map_cons, List.map_cons, hhead, htail]

end Packed

end Rows

/-! ## Open windows -/

section Windows

variable {w : Nat} {s t : Areas w} {live live' : List (Area w)} {base : BitVec w} {i j : Nat}

/-- An open window of which all is free is a single block. -/
theorem Opened.layout_free (h : Opened s live base) (hc : s.Coalesced s.order)
    (hfree : ∀ i ∈ s.order, (s.block i).free = true) : ∃ kept,
    s.layout =
      [{ address := base, size := s.config.usable, free := true, backup := kept }] := by
  have htiles := h.tiles
  rw [layout]
  cases ho : s.order with
  | nil => exact absurd ho h.nonempty
  | cons i rest =>
      rw [ho] at hc hfree htiles
      cases rest with
      | cons k rest =>
          refine absurd ⟨hfree i ?_, hfree k ?_⟩ (List.isChain_cons_cons.mp hc).1
          · exact List.mem_cons_self
          · exact List.mem_cons_of_mem i List.mem_cons_self
      | nil =>
          obtain ⟨haddress, hend⟩ := htiles
          have hend : base.toNat + (s.block i).size = base.toNat + s.config.usable := hend
          refine ⟨(s.block i).backup, ?_⟩
          rw [List.map_singleton, ← BitVec.eq_of_toNat_eq haddress, ← Nat.add_left_cancel hend,
            ← hfree i List.mem_cons_self]

/-- An open window without a byte is a single free block. -/
theorem Opened.shown_empty (h : Opened s live base) (hc : s.Coalesced s.order)
    (hfirm : Firm s s.order) (hz : s.config.usable = 0) :
    s.shown = [{ address := base, size := 0, free := true }] := by
  have hfree : ∀ i ∈ s.order, (s.block i).free = true := by
    intro i hi
    have hin := h.tiles.inside hi
    cases hf : (s.block i).free with
    | true => rfl
    | false =>
        have hpos := (hfirm.blocks i hi).positive hf
        omega
  obtain ⟨kept, hlayout⟩ := h.layout_free hc hfree
  rw [shown, hlayout, hz]
  rfl

/-- Two open windows with the same live blocks. -/
theorem twins_of_same (h : Opened s live base) (h' : Opened t live' base)
    (hc : s.Coalesced s.order) (hc' : t.Coalesced t.order) (hfirm : Firm s s.order)
    (hfirm' : Firm t t.order) (hconfig : s.config = t.config)
    (hlive : ∀ b : Block w, b.free = false → (b ∈ s.layout ↔ b ∈ t.layout)) : Twins s t where
  config := hconfig
  left := hfirm
  right := hfirm'
  shown := by
    rcases Nat.eq_zero_or_pos s.config.usable with hz | hp
    · rw [h.shown_empty hc hfirm hz, h'.shown_empty hc' hfirm' (hconfig ▸ hz)]
    · have hpos : ∀ i ∈ s.order, 0 < (s.block i).size :=
        fun i hi => (h.pos i hi).resolve_right (Nat.ne_of_gt hp)
      have hpos' : ∀ i ∈ t.order, 0 < (t.block i).size :=
        fun i hi => (h'.pos i hi).resolve_right (Nat.ne_of_gt (hconfig ▸ hp))
      have hpacked : Packed s base.toNat s.order (base.toNat + s.config.usable) :=
        ⟨h.tiles, hc, hpos⟩
      have hpacked' : Packed t base.toNat t.order (base.toNat + s.config.usable) :=
        ⟨hconfig ▸ h'.tiles, hc', hpos'⟩
      rw [shown_eq, shown_eq]
      exact hpacked.unique hpacked' hlive

/-- Blocks that are handed out are told apart by their addresses. -/
theorem Opened.eq_of_address (h : Opened s live base) (hfirm : Firm s s.order) (hi : i ∈ s.order)
    (hj : j ∈ s.order) (hf : (s.block i).free = false) (hf' : (s.block j).free = false)
    (heq : (s.block i).address = (s.block j).address) : i = j := by
  by_contra hne
  have hpos := (hfirm.blocks i hi).positive hf
  have hpos' := (hfirm.blocks j hj).positive hf'
  have hapart := h.tiles.disjoint hi hj hne
  rw [heq] at hapart
  omega

end Windows

/-! ## Whatever is reached is firm -/

section Reached

variable {A : Arch} {s t : Areas A.width} {live : List (Area A.width)} {mmu : Bool}

/-- Twins that are asked the same stay twins. -/
theorem Twins.perform (h : Twins s s) (request : AreaRequest A.width) :
    Agree (fun r r' => Twins r.2 r'.2) (request.perform.run s) (request.perform.run s) := by
  have hissue : ∀ {x : AreaM A (Area A.width)},
      Agree (Both Issued Twins) (x.run.run s) (x.run.run s) →
      Agree (fun r r' => Twins r.2 r'.2)
        ((do return (← x.run).toOption :
          StateT (Areas A.width) (Dialogue A) (Option (Area A.width))).run s)
        ((do return (← x.run).toOption :
          StateT (Areas A.width) (Dialogue A) (Option (Area A.width))).run s) := by
    intro x hx
    refine hx.bind ?_
    rintro _ _ (⟨_, _, h'⟩ | ⟨e, h'⟩)
    · exact .done h'
    · exact .done h'
  have hignore : ∀ {area : Area A.width} {putBack : Bool},
      Agree (fun r r' => Twins r.2 r'.2)
        ((do
          let _ ← (freeRestore area putBack).run
          return none : StateT (Areas A.width) (Dialogue A) (Option (Area A.width))).run s)
        ((do
          let _ ← (freeRestore area putBack).run
          return none : StateT (Areas A.width) (Dialogue A) (Option (Area A.width))).run s) := by
    intro area putBack
    refine (agree_freeRestore h (.refl h.left.toSlotted area) putBack).bind ?_
    rintro _ _ (h' | ⟨e, h'⟩)
    · exact .done h'
    · exact .done h'
  cases request with
  | alloc size => exact hissue (agree_alloc h size)
  | allocTry size => exact hissue (agree_allocTry h size)
  | allocShrinking preferred least => exact hissue (agree_allocShrinking h preferred least)
  | free area => exact hignore
  | freeRestore area putBack => exact hignore
  | freeAll => exact (agree_freeAll h).bind fun _ _ h' => .done h'
  | freeAllRestore putBack => exact (agree_freeAllRestore h putBack).bind fun _ _ h' => .done h'
  | setConfig config => exact .done (h.setConfig config)

theorem Reachable.twins (h : Reachable A s live mmu) : Twins s s := by
  induction h with
  | new id config mmu =>
      have hfirm : Firm ({ id, config } : Areas A.width) [] :=
        .of_nil (closed_new id config).slotted
      exact ⟨rfl, rfl, hfirm, hfirm⟩
  | @request s s' live mmu mmu' issued request _ run ih =>
      have hwp : (anyTarget A).wp Anything (request.perform.run s) (fun r _ => Twins r.2 r.2) mmu :=
        (ih.perform request).self_wp fun _ => trivial
      exact anyTarget_tame.reached (fun _ _ _ => trivial) hwp run

end Reached

end DebugLink.Areas
