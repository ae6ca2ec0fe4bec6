import DebugLink.Ring

/-!
# A ring buffer as a window on a stream

Number the bytes of a stream from zero.  Byte `n` belongs at `place n`, and two counters say
which bytes are in the fifo: `c` for the reader, `n` for the writer.  As long as the writer is
less than one fifo ahead (`c ≤ n < c + capacity`), no two bytes of the window share a place
(`place_ne`), and the two pointers alone tell how far it is from one to the other
(`place_behind`).

The two results that transfers rest on: `readSpace` never asks for a byte that the writer has
not reached (`readSpace_le`), and `writeSpace` never lets the writer come around to a byte that
the reader has not left (`writeSpace_lt`), with a whole block to spare if the reader stands on a
block boundary (`writeSpace_block_le`).
-/

namespace DebugLink.Ring

variable (r : Ring)

/-- Where byte `n` of a stream belongs. -/
def place (n : Nat) : Nat :=
  r.fifoStart + n % r.capacity

/-- How often the pointer went back to the start while `n` bytes went through the fifo, as a
    counter of 32 bits shows it. -/
def rounds (n : Nat) : UInt32 :=
  UInt32.ofNat (n / r.capacity)

/-! ## Geometry -/

/-- A ring fills the area that it was made of. -/
theorem eq_of_ofArea? {w : Nat} {area : Area w} {block : Nat} {r : Ring}
    (h : ofArea? area block = .ok r) :
    r.start = area.address.toNat ∧ r.size = area.size ∧ r.block = block := by
  unfold ofArea? ofBuffer? at h
  repeat' split at h
  all_goals cases h
  exact ⟨rfl, rfl, rfl⟩

/-- A block is not empty. -/
theorem block_pos : 0 < r.block := by
  rw [r.block_pow, Nat.one_shiftLeft]
  exact Nat.two_pow_pos _

/-- The fifo holds two blocks at least. -/
theorem two_blocks_le : 2 * r.block ≤ r.capacity := by
  have h := r.two_blocks
  rw [capacity]
  omega

theorem capacity_pos : 0 < r.capacity := by
  have h := r.pointers_fit
  rw [capacity]
  omega

/-- The fifo ends where the ring does. -/
theorem fifoEnd_eq : r.fifoEnd = r.fifoStart + r.capacity := by
  have h := r.pointers_fit
  rw [fifoEnd, fifoStart, capacity]
  omega

/-- Every byte of a stream has its place in the fifo, ... -/
theorem fifoStart_le_place (n : Nat) : r.fifoStart ≤ r.place n :=
  Nat.le_add_right _ _

/-- ... in front of its end. -/
theorem place_lt (n : Nat) : r.place n < r.fifoEnd := by
  rw [fifoEnd_eq]
  exact Nat.add_lt_add_left (Nat.mod_lt _ r.capacity_pos) _

theorem fifoStart_lt : r.fifoStart < r.fifoEnd := by
  rw [fifoEnd_eq]
  exact Nat.lt_add_of_pos_right r.capacity_pos

theorem fifoEnd_lt : r.fifoEnd < 0x100000000 :=
  r.in_reach

theorem rpAddr_eq : r.rpAddr = r.wpAddr + 4 := rfl

theorem fifoStart_eq : r.fifoStart = r.wpAddr + 8 := rfl

/-- The place is a word, as the core can read it. -/
theorem place_lt_word (n : Nat) : r.place n < 0x100000000 :=
  Nat.lt_trans (r.place_lt n) r.fifoEnd_lt

@[simp] theorem place_zero : r.place 0 = r.fifoStart := by
  simp [place]

/-- A pointer stays in the fifo, wherever it came from. -/
theorem advance_lt (ptr len : Nat) : (r.advance ptr len).1 < r.fifoEnd := by
  rw [advance]
  split
  · exact r.fifoStart_lt
  · next h => exact Nat.lt_of_not_le h

variable {r} {c n k : Nat}

/-- A pointer is valid on a block boundary inside the fifo. -/
theorem isValidPtr_iff {ptr : Nat} : r.isValidPtr ptr = true ↔
    r.fifoStart ≤ ptr ∧ ptr < r.fifoEnd ∧ (ptr - r.fifoStart) % r.block = 0 := by
  simp [isValidPtr, and_assoc]

/-- Whole blocks lead from one boundary to the next. -/
theorem boundary_add {ptr : Nat} (hlow : r.fifoStart ≤ ptr) (h : (ptr - r.fifoStart) % r.block = 0)
    (len : Nat) : (ptr + (len - len % r.block) - r.fifoStart) % r.block = 0 := by
  have hsum : ptr + (len - len % r.block) - r.fifoStart =
      ptr - r.fifoStart + (len - len % r.block) := by omega
  rw [hsum, Nat.add_mod, h, Nat.zero_add, Nat.mod_mod]
  exact Nat.sub_mod_eq_zero_of_mod_eq (by simp)

/-! ## Going on, and going around -/

/-- Going on inside the fifo adds to the place. -/
theorem place_add (h : r.place n + k < r.fifoEnd) : r.place (n + k) = r.place n + k := by
  rw [fifoEnd_eq] at h
  simp only [place] at h ⊢
  have hk : n % r.capacity + k < r.capacity := by omega
  rw [← Nat.mod_add_mod, Nat.mod_eq_of_lt hk, Nat.add_assoc]

/-- Coming to its end leads back to the start. -/
theorem place_add_end (h : r.place n + k = r.fifoEnd) : r.place (n + k) = r.fifoStart := by
  rw [fifoEnd_eq] at h
  rw [place] at h ⊢
  have hk : n % r.capacity + k = r.capacity := by omega
  rw [← Nat.mod_add_mod, hk, Nat.mod_self, Nat.add_zero]

/-- A pointer that is moved on points at the place of the byte after the piece. -/
theorem advance_place (h : r.place n + k ≤ r.fifoEnd) :
    (r.advance (r.place n) k).1 = r.place (n + k) := by
  rw [advance]
  split
  · next he => exact (place_add_end (Nat.le_antisymm h he)).symm
  · next he => exact (place_add (Nat.lt_of_not_le he)).symm

/-- It goes back to the start once in every fifo of bytes. -/
theorem div_add_wrap (h : r.place n + k ≤ r.fifoEnd) :
    (n + k) / r.capacity = n / r.capacity + (r.advance (r.place n) k).2.toNat := by
  have hpos := r.capacity_pos
  -- whole fifos in front, and what goes on from the place of byte `n`
  have hsum : n + k = r.capacity * (n / r.capacity) + (n % r.capacity + k) := by
    rw [← Nat.add_assoc, Nat.div_add_mod]
  rw [fifoEnd_eq, place] at h
  rw [hsum, Nat.mul_add_div hpos, advance, fifoEnd_eq, place]
  congr 1
  split
  · have hk : n % r.capacity + k = r.capacity := by omega
    rw [hk, Nat.div_self hpos]
    rfl
  · exact Nat.div_eq_of_lt (by omega)

@[simp] theorem rounds_zero : r.rounds 0 = 0 := by
  rw [rounds, Nat.zero_div]
  rfl

/-- A counter that goes up with each wrap-around shows the rounds, also when it starts over. -/
theorem rounds_add (h : r.place n + k ≤ r.fifoEnd) :
    r.rounds (n + k) = r.rounds n + (r.advance (r.place n) k).2.toUInt32 := by
  rw [rounds, rounds, div_add_wrap h, UInt32.ofNat_add]
  cases (r.advance (r.place n) k).2 <;> rfl

/-- The counter shows the rounds modulo `2 ^ 32`. -/
theorem toNat_rounds : (r.rounds n).toNat = n / r.capacity % 0x100000000 :=
  UInt32.toNat_ofNat'

/-- It shows their number as long as that is a word. -/
theorem toNat_rounds_of_lt (h : n / r.capacity < 0x100000000) :
    (r.rounds n).toNat = n / r.capacity := by
  rw [toNat_rounds, Nat.mod_eq_of_lt h]

/-- A stream of fewer bytes than `2 ^ 32` does not go around that often. -/
theorem toNat_rounds_of_word (h : n < 0x100000000) : (r.rounds n).toNat = n / r.capacity :=
  toNat_rounds_of_lt (Nat.lt_of_le_of_lt (Nat.div_le_self n _) h)

/-- The writer's place, told from the reader's: ahead of it, or one fifo less. -/
theorem place_behind (hc : c ≤ n) (hn : n < c + r.capacity) :
    r.place n = r.place c + (n - c) ∨ r.place n + r.capacity = r.place c + (n - c) := by
  have hsum : n = c + (n - c) := by omega
  have hlt : c % r.capacity < r.capacity := Nat.mod_lt _ r.capacity_pos
  simp only [place]
  -- either the writer is in the same round as the reader, or in the next one
  by_cases h : c % r.capacity + (n - c) < r.capacity
  · left
    rw [hsum, ← Nat.mod_add_mod, Nat.mod_eq_of_lt h]
    omega
  · right
    have hmod : (c % r.capacity + (n - c)) % r.capacity
        = c % r.capacity + (n - c) - r.capacity := by
      rw [Nat.mod_eq_sub_mod (by omega), Nat.mod_eq_of_lt (by omega)]
    have hn' : n % r.capacity = (c % r.capacity + (n - c)) % r.capacity := by
      rw [Nat.mod_add_mod, ← hsum]
    rw [hn', hmod]
    omega

/-- No two bytes of a window share a place. -/
theorem place_ne (hc : c < n) (hn : n < c + r.capacity) : r.place c ≠ r.place n := by
  rcases place_behind (Nat.le_of_lt hc) hn with h | h <;> omega

/-- Equal pointers mean that the window is empty. -/
theorem eq_of_place_eq (hc : c ≤ n) (hn : n < c + r.capacity) (h : r.place n = r.place c) :
    n = c := by
  rcases Nat.lt_or_eq_of_le hc with hlt | heq
  · exact absurd h.symm (place_ne hlt hn)
  · exact heq.symm

/-- No byte of the window lies where the writer's next piece goes. -/
theorem place_outside {i : Nat} (hn : n + k ≤ c + r.capacity) (he : r.place n + k ≤ r.fifoEnd)
    (hi : c ≤ i) (hi' : i < n) : r.place i < r.place n ∨ r.place n + k ≤ r.place i := by
  refine Decidable.byContradiction ?_
  intro hcon
  -- it would be the place of a byte of the piece, less than a fifo away
  obtain ⟨t, ht⟩ : ∃ t, r.place i = r.place n + t := ⟨r.place i - r.place n, by omega⟩
  have hlt : t < k := by omega
  rw [← place_add (by omega)] at ht
  exact place_ne (by omega) (by omega) ht

/-! ## Room -/

/-- What may be read does not go around. -/
theorem readSpace_fits {wp rp : Nat} (hwp : wp < r.fifoEnd) (hrp : rp < r.fifoEnd) :
    rp + r.readSpace wp rp ≤ r.fifoEnd := by
  rw [readSpace]
  split <;> omega

/-- What may be written does not go around, wherever the reader stands. -/
theorem writeSpace_fits {wp rp : Nat} (hwp : wp < r.fifoEnd) (hrp : rp ≤ r.fifoEnd) :
    wp + r.writeSpace wp rp ≤ r.fifoEnd := by
  rw [writeSpace]
  split
  · omega
  · split <;> omega

/-- What may be read has been reached by the writer, and does not go around. -/
theorem readSpace_le (hc : c ≤ n) (hn : n < c + r.capacity) :
    c + r.readSpace (r.place n) (r.place c) ≤ n ∧
      r.place c + r.readSpace (r.place n) (r.place c) ≤ r.fifoEnd := by
  have hpn := r.place_lt n
  have hpc := r.place_lt c
  have hs := r.fifoStart_le_place n
  have he := r.fifoEnd_eq
  rw [readSpace]
  rcases place_behind hc hn with h | h <;> split <;> omega

/-- What may be written leaves the reader's bytes alone, and does not go around. -/
theorem writeSpace_lt (hc : c ≤ n) (hn : n < c + r.capacity) :
    n + r.writeSpace (r.place n) (r.place c) < c + r.capacity ∧
      r.place n + r.writeSpace (r.place n) (r.place c) ≤ r.fifoEnd := by
  have hb := r.block_pos
  have hpn := r.place_lt n
  have hpc := r.place_lt c
  have hs := r.fifoStart_le_place c
  have he := r.fifoEnd_eq
  rw [writeSpace]
  rcases place_behind hc hn with h | h <;> split
  · omega
  · split <;> omega
  · omega
  · split <;> omega

/-- If the reader stands on a block boundary, one block stays unused. -/
theorem writeSpace_block_le (hc : c ≤ n) (hn : n + r.block ≤ c + r.capacity)
    (hv : r.isValidPtr (r.place c) = true) :
    n + r.writeSpace (r.place n) (r.place c) + r.block ≤ c + r.capacity := by
  have hb := r.block_pos
  have hpn := r.place_lt n
  have hs := r.fifoStart_le_place c
  have he := r.fifoEnd_eq
  -- a boundary other than the start of the fifo is at least one block away from it
  have hfar : r.fifoStart < r.place c → r.fifoStart + r.block ≤ r.place c := by
    intro hlt
    have hdvd : r.block ∣ r.place c - r.fifoStart :=
      Nat.dvd_of_mod_eq_zero (isValidPtr_iff.mp hv).2.2
    have := Nat.le_of_dvd (by omega) hdvd
    omega
  have hlt : n < c + r.capacity := by omega
  rw [writeSpace]
  rcases place_behind hc hlt with h | h <;> split
  · omega
  · split
    · next hlt =>
      have := hfar hlt
      omega
    · omega
  · omega
  · split
    · next hlt =>
      have := hfar hlt
      omega
    · omega

/-- There is room as soon as one more byte than the unused block is free. -/
theorem writeSpace_pos (hc : c ≤ n) (hn : n + r.block < c + r.capacity) :
    0 < r.writeSpace (r.place n) (r.place c) := by
  have hpn := r.place_lt n
  have hs := r.fifoStart_le_place c
  have he := r.fifoEnd_eq
  rw [writeSpace]
  rcases place_behind hc (show n < c + r.capacity by omega) with h | h <;> split
  · omega
  · split <;> omega
  · omega
  · split <;> omega

/-- A ring that holds two blocks of one word each. -/
def twoWords : Ring where
  start := 0x1000
  size := 16
  block := 4
  block_pow := by decide
  pointers_fit := by decide
  two_blocks := by decide
  aligned := by decide
  start_pos := by decide
  in_reach := by decide

end DebugLink.Ring
