import DebugLink.Proofs.Ring

/-!
# One block of slack

A writer that finds no room waits for the reader, and a reader that finds nothing waits for the
writer.  The two rules for the space, `writeSpace` and `readSpace`, are made so that

* they never wait for each other: where there is no room, a reader that takes only whole blocks
  or the rest of the fifo still finds a piece (`portion_of_full`), and where there is nothing to
  read, there is room (`room_of_empty`);
* the fifo is NEVER FULL: what is unread and the next piece together leave one block unused
  (`unread_add_le`), so a writer that goes on never comes to stand on the reader's pointer
  (`advance_ne`), where its bytes would read as "empty".

The heart is that a reader's pointer other than the start of the fifo is at least one block away
from it (`boundary_far`), and that a fifo holds two blocks.  Neither needs the fifo to be whole
blocks, nor the writer to stand on a boundary.
-/

namespace DebugLink.Ring

/-- Every ring is one that was accepted. -/
theorem ofBuffer?_self (r : Ring) : ofBuffer? r.start r.size r.block = .ok r := by
  unfold ofBuffer?
  rw [dif_pos r.block_pow, dif_pos r.pointers_fit, dif_pos r.two_blocks, dif_pos r.aligned,
    dif_pos ⟨r.start_pos, r.in_reach⟩]

variable (r : Ring)

/-- Is this address in the fifo? -/
def Holds (ptr : Nat) : Prop :=
  r.fifoStart ≤ ptr ∧ ptr < r.fifoEnd

/-- Bytes between the two pointers that have not been read, counted around the end. -/
def unread (wp rp : Nat) : Nat :=
  (wp + r.capacity - rp) % r.capacity

/-- A piece that a reader may take in one go if it takes only whole blocks, or all that is left
    up to the end of the fifo. -/
def Portion (wp rp len : Nat) : Prop :=
  0 < len ∧ len ≤ r.readSpace wp rp ∧ (len % r.block = 0 ∨ rp + len = r.fifoEnd)

variable {r} {wp rp len : Nat}

theorem holds_of_valid (h : r.isValidPtr rp = true) : r.Holds rp :=
  ⟨(isValidPtr_iff.mp h).1, (isValidPtr_iff.mp h).2.1⟩

/-- A boundary other than the start of the fifo is at least one block away from it. -/
theorem boundary_far (h : r.isValidPtr rp = true) (hlt : r.fifoStart < rp) :
    r.fifoStart + r.block ≤ rp := by
  have hdvd : r.block ∣ rp - r.fifoStart :=
    Nat.dvd_of_mod_eq_zero (isValidPtr_iff.mp h).2.2
  have := Nat.le_of_dvd (by omega) hdvd
  omega

/-! ## What is unread -/

/-- The writer is ahead of the reader, or has gone around. -/
theorem unread_eq (hwp : r.Holds wp) (hrp : r.Holds rp) :
    r.unread wp rp = if rp ≤ wp then wp - rp else wp + r.capacity - rp := by
  obtain ⟨hwlow, hwhigh⟩ := hwp
  obtain ⟨hrlow, hrhigh⟩ := hrp
  rw [fifoEnd_eq] at hwhigh hrhigh
  rw [unread]
  split
  · have hsum : wp + r.capacity - rp = wp - rp + r.capacity := by omega
    rw [hsum, Nat.add_mod_right, Nat.mod_eq_of_lt (by omega)]
  · exact Nat.mod_eq_of_lt (by omega)

theorem unread_self (hrp : r.Holds rp) : r.unread rp rp = 0 := by
  rw [unread_eq hrp hrp, if_pos (Nat.le_refl rp), Nat.sub_self]

/-- A pointer that is moved on stays in the fifo. -/
theorem holds_advance (hwp : r.Holds wp) : r.Holds (r.advance wp len).1 := by
  refine ⟨?_, r.advance_lt wp len⟩
  rw [advance]
  split
  · exact Nat.le_refl _
  · exact Nat.le_trans hwp.1 (Nat.le_add_right _ _)

/-- A piece that does not close the gap is counted in full, also across the end of the fifo. -/
theorem unread_advance (hwp : r.Holds wp) (hrp : r.Holds rp) (hfits : wp + len ≤ r.fifoEnd)
    (hgap : r.unread wp rp + len < r.capacity) :
    r.unread (r.advance wp len).1 rp = r.unread wp rp + len := by
  have hend := r.fifoEnd_eq
  have hlow := hrp.1
  have hhigh := hrp.2
  have hwlow := hwp.1
  have hnow := unread_eq hwp hrp
  rw [unread_eq (holds_advance hwp) hrp, advance]
  by_cases haround : r.fifoEnd ≤ wp + len
  · rw [if_pos haround]
    split at hnow <;> split <;> omega
  · rw [if_neg haround]
    split at hnow <;> split <;> omega

/-! ## The writer's side -/

/-- A piece with room for it leaves one block unused, wherever the writer stands. -/
theorem unread_add_le (hwp : r.Holds wp) (hrp : r.isValidPtr rp = true) (hpos : 0 < len)
    (hlen : len ≤ r.writeSpace wp rp) : r.unread wp rp + len ≤ r.capacity - r.block := by
  have hin := holds_of_valid hrp
  have hend := r.fifoEnd_eq
  have hwlow := hwp.1
  have hlow := hin.1
  have hhigh := hin.2
  have hfar := boundary_far hrp
  rw [unread_eq hwp hin]
  rw [writeSpace] at hlen
  by_cases hahead : wp < rp
  · rw [if_pos hahead] at hlen
    rw [if_neg (Nat.not_le.mpr hahead)]
    omega
  · rw [if_neg hahead] at hlen
    rw [if_pos (Nat.not_lt.mp hahead)]
    split at hlen
    · next hmoved =>
      have := hfar hmoved
      omega
    · omega

/-- Going on never makes the fifo look empty. -/
theorem advance_ne (hwp : r.Holds wp) (hrp : r.isValidPtr rp = true) (hpos : 0 < len)
    (hlen : len ≤ r.writeSpace wp rp) : (r.advance wp len).1 ≠ rp := by
  intro heq
  have hin := holds_of_valid hrp
  have hfits := writeSpace_fits hwp.2 (Nat.le_of_lt hin.2)
  have hslack := unread_add_le hwp hrp hpos hlen
  have hblock := r.block_pos
  have htwo := r.two_blocks_le
  have hcount := unread_advance hwp hin (Nat.le_trans (Nat.add_le_add_left hlen wp) hfits)
    (show r.unread wp rp + len < r.capacity by omega)
  rw [heq, unread_self hin] at hcount
  omega

/-- No room: the writer has gone around, or is a block ahead. -/
theorem behind_of_full (hwp : r.Holds wp) (hrp : r.isValidPtr rp = true)
    (hfull : r.writeSpace wp rp = 0) : wp < rp ∨ r.block ≤ wp - rp := by
  have hhigh := hwp.2
  have hlow := (holds_of_valid hrp).1
  have hend := r.fifoEnd_eq
  have htwo := r.two_blocks_le
  rw [writeSpace] at hfull
  by_cases hahead : wp < rp
  · exact .inl hahead
  · rw [if_neg hahead] at hfull
    split at hfull <;> omega

/-- A reader that takes whole blocks or the rest of the fifo finds a piece there. -/
theorem portion_of_full (hwp : r.Holds wp) (hrp : r.isValidPtr rp = true)
    (hfull : r.writeSpace wp rp = 0) : ∃ len, r.Portion wp rp len := by
  have hhigh := (holds_of_valid hrp).2
  rcases behind_of_full hwp hrp hfull with haround | hahead
  · refine ⟨r.fifoEnd - rp, by omega, Nat.le_of_eq ?_, .inr (by omega)⟩
    rw [readSpace, if_neg (Nat.not_le.mpr haround)]
  · have hblock := r.block_pos
    refine ⟨r.block, hblock, ?_, .inl (Nat.mod_self _)⟩
    rw [readSpace, if_pos (by omega)]
    exact hahead

/-- After such a piece the reader stands on a boundary again. -/
theorem Portion.valid (hrp : r.isValidPtr rp = true) (h : r.Portion wp rp len) :
    r.isValidPtr (r.advance rp len).1 = true := by
  obtain ⟨hlow, -, hmod⟩ := isValidPtr_iff.mp hrp
  have hstart := r.fifoStart_lt
  rw [advance, isValidPtr_iff]
  split
  · exact ⟨Nat.le_refl _, hstart, by rw [Nat.sub_self, Nat.zero_mod]⟩
  · next hin =>
    have hwhole : len % r.block = 0 := by
      rcases h.2.2 with hwhole | hrest <;> omega
    have hboundary := boundary_add hlow hmod len
    rw [hwhole, Nat.sub_zero] at hboundary
    exact ⟨by omega, by omega, hboundary⟩

/-! ## The reader's side -/

/-- Nothing to read means equal pointers. -/
theorem eq_of_empty (hrp : r.Holds rp) (hempty : r.readSpace wp rp = 0) : wp = rp := by
  have hhigh := hrp.2
  rw [readSpace] at hempty
  split at hempty <;> omega

/-- The writer finds a block of room there, or all that is left up to the end of the fifo. -/
theorem room_of_empty (hrp : r.Holds rp) (hempty : r.readSpace wp rp = 0) :
    r.block ≤ r.writeSpace wp rp ∨ r.writeSpace wp rp = r.fifoEnd - wp := by
  obtain rfl := eq_of_empty hrp hempty
  have hend := r.fifoEnd_eq
  have htwo := r.two_blocks_le
  have hlow := hrp.1
  rw [writeSpace, if_neg (Nat.lt_irrefl wp)]
  split
  · exact .inr rfl
  · exact .inl (by omega)

/-- BACK-PRESSURE NEVER DEADLOCKS AND THE FIFO NEVER OVERFILLS.  Let both pointers be in the
    fifo.  If the reader's is on a boundary: without room for the writer, the reader has gone
    around or is at least a block behind, so that it finds a piece it takes and stands on a
    boundary after it; and a piece with room for it ends in the fifo, leaves one block unused,
    and never makes the pointers equal.  And where there is nothing to read, there is room: a
    block of it, or everything up to the end. -/
theorem backpressure (r : Ring) (wp rp : Nat) (hwp : r.Holds wp) (hrp : r.Holds rp) :
    (r.isValidPtr rp = true →
      (r.writeSpace wp rp = 0 →
        (wp < rp ∨ r.block ≤ wp - rp) ∧
          ∃ len, r.Portion wp rp len ∧ r.isValidPtr (r.advance rp len).1 = true) ∧
      ∀ len, 0 < len → len ≤ r.writeSpace wp rp →
        wp + len ≤ r.fifoEnd ∧ r.unread wp rp + len ≤ r.capacity - r.block ∧
          (r.advance wp len).1 ≠ rp) ∧
    (r.readSpace wp rp = 0 →
      (r.block ≤ r.writeSpace wp rp ∨ r.writeSpace wp rp = r.fifoEnd - wp) ∧
        0 < r.writeSpace wp rp) := by
  constructor
  · intro hvalid
    constructor
    · intro hfull
      obtain ⟨len, hportion⟩ := portion_of_full hwp hvalid hfull
      exact ⟨behind_of_full hwp hvalid hfull, len, hportion, hportion.valid hvalid⟩
    · intro len hpos hlen
      have hfits := writeSpace_fits hwp.2 (Nat.le_of_lt hrp.2)
      exact ⟨Nat.le_trans (Nat.add_le_add_left hlen wp) hfits,
        unread_add_le hwp hvalid hpos hlen, advance_ne hwp hvalid hpos hlen⟩
  · intro hempty
    have hroom := room_of_empty hrp hempty
    have hblock := r.block_pos
    have hhigh := hwp.2
    refine ⟨hroom, ?_⟩
    rcases hroom with hroom | hroom <;> omega

/-- A fifo that is not whole blocks: ten bytes in blocks of four. -/
def oddTail : Ring where
  start := 0x1000
  size := 18
  block := 4
  block_pow := twoWords.block_pow
  pointers_fit := by decide
  two_blocks := by decide
  aligned := twoWords.aligned
  start_pos := twoWords.start_pos
  in_reach := by decide

/-- With the reader at the start and the writer seven bytes on, there is no room, and a block to
    take. -/
theorem backpressure_oddTail :
    oddTail.isValidPtr 0x1008 = true ∧ oddTail.writeSpace 0x100f 0x1008 = 0 ∧
      (0x100f < 0x1008 ∨ oddTail.block ≤ 0x100f - 0x1008) :=
  ⟨by decide, by decide,
    ((backpressure oddTail 0x100f 0x1008 (by unfold Holds; decide) (by unfold Holds; decide)).1
      (by decide)).1 (by decide) |>.1⟩

end DebugLink.Ring
