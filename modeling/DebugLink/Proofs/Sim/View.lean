import DebugLink.Proofs.Ring
import DebugLink.Sim.Program

/-!
# A ring buffer in words

The programs on the simulated target compute with 32-bit words.  `Ring.view` is what they see of
a ring; as all of it lies below 2³², each of its words stands for the number that `Ring` has.
-/

namespace DebugLink

namespace Ring

variable (r : Ring)

/-- A ring as the programs on the target see it. -/
def view : Sim.RingView where
  start := BitVec.ofNat 32 r.start
  size := BitVec.ofNat 32 r.size
  block := BitVec.ofNat 32 r.block

/-- The place of the write pointer is that of the ring. -/
@[simp] theorem toNat_view_wpAddr : r.view.wpAddr.toNat = r.wpAddr := by
  have := r.in_reach
  rw [Sim.RingView.wpAddr, view, wpAddr]
  bv_omega

/-- So is the place of the read pointer; the sum does not leave a word. -/
@[simp] theorem toNat_view_rpAddr : r.view.rpAddr.toNat = r.rpAddr := by
  have := r.in_reach
  have := r.pointers_fit
  rw [Sim.RingView.rpAddr, view, rpAddr]
  bv_omega

/-- So is the start of the fifo. -/
@[simp] theorem toNat_view_fifoStart : r.view.fifoStart.toNat = r.fifoStart := by
  have := r.in_reach
  have := r.pointers_fit
  rw [Sim.RingView.fifoStart, view, fifoStart]
  bv_omega

/-- So is its end, which is a word as well. -/
@[simp] theorem toNat_view_fifoEnd : r.view.fifoEnd.toNat = r.fifoEnd := by
  have := r.in_reach
  rw [Sim.RingView.fifoEnd, view, fifoEnd]
  bv_omega

/-- A block is no larger than the ring, and so a word. -/
@[simp] theorem toNat_view_block : r.view.block.toNat = r.block := by
  have := r.in_reach
  have := r.two_blocks
  rw [view]
  bv_omega

/-- A word that points into the fifo is not zero, which would mean that the ring was given up. -/
theorem ne_zero_of_place {r : Ring} {n : Nat} {v : Sim.Word} (h : v.toNat = r.place n) : v ≠ 0 := by
  rintro rfl
  have := r.fifoStart_le_place n
  have := r.fifoStart_eq
  have hzero : (0 : Sim.Word).toNat = 0 := rfl
  omega

/-- Moving a pointer on, in words. -/
theorem toNat_advance {ptr len : Sim.Word} (h : ptr.toNat + len.toNat ≤ r.fifoEnd) :
    (if r.view.fifoEnd ≤ ptr + len then r.view.fifoStart else ptr + len).toNat =
      (r.advance ptr.toNat len.toNat).1 := by
  have hend := r.fifoEnd_lt
  have hsum : (ptr + len).toNat = ptr.toNat + len.toNat := by
    rw [BitVec.toNat_add]
    omega
  rw [advance]
  simp only [BitVec.le_def, toNat_view_fifoEnd, hsum]
  split
  · exact r.toNat_view_fifoStart
  · exact hsum

end Ring

/-- The smaller of two words stands for the smaller number. -/
@[simp] theorem Sim.toNat_least (a b : Word) : (least a b).toNat = min a.toNat b.toNat := by
  rw [least, Nat.min_def]
  simp only [BitVec.le_def]
  split <;> rfl

end DebugLink
