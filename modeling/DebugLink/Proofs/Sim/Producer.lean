import DebugLink.Proofs.Sim.Transfer
import DebugLink.Proofs.Transfer.ReadSafety

/-!
# The simulated producer, step by step

A step of the simulated producer is some of the moves that a conforming producer may make
(`Supply.Move`): it puts a piece, and publishes its pointer.  So what is known of those, above all
`Supply.Sound`, is known of this one.

* `Fills` relates the target to a `Supply`, which says what has gone through the ring.
* `Fills.step`: a step keeps this up, leaves an EMPTY fifo only behind the last byte, and ends the
  program if everything has been produced.
* `Ring.portion_ahead`: behind the last byte the pointer is rounded up to a block boundary, and
  may go around.  It does not reach the reader, so that FULL IS NEVER TAKEN FOR EMPTY.
-/

namespace DebugLink

/-! ## How much is put there -/

namespace Ring

/-- How many bytes a producer puts at `wp`, if `rest` are still to come and one step puts no more
    than `rate`, and where its pointer goes: whole blocks, except for the end of the fifo and for
    the last ones, behind which the pointer is rounded up. -/
def portion (r : Ring) (rate rest wp rp : Nat) : Nat × Nat :=
  let len := min (min (r.writeSpace wp rp) rate) rest
  if r.fifoEnd ≤ wp + len then (len, r.fifoStart)
  else if len = rest then (len, r.roundUp (wp + len))
  else (len - len % r.block, wp + (len - len % r.block))

variable {r : Ring} {rate rest wp rp c n : Nat}

/-- No more is put there than there is room for, and no more than is left. -/
theorem portion_le (r : Ring) (rate rest wp rp : Nat) :
    (r.portion rate rest wp rp).1 ≤ r.writeSpace wp rp ∧ (r.portion rate rest wp rp).1 ≤ rest := by
  rw [portion]
  split
  · dsimp only
    omega
  · split <;> dsimp only <;> omega

/-- The pointer moves on by what was put there, and stays on the block boundaries; or it is
    rounded up behind the last byte. -/
theorem portion_next (rate rest rp : Nat) (hwp : (wp - r.fifoStart) % r.block = 0)
    (hlow : r.fifoStart ≤ wp) :
    (r.portion rate rest wp rp).2 = (r.advance wp (r.portion rate rest wp rp).1).1 ∧
        ((r.portion rate rest wp rp).2 - r.fifoStart) % r.block = 0 ∨
      (r.portion rate rest wp rp).1 = rest ∧
        (r.portion rate rest wp rp).2 = r.roundUp (wp + rest) ∧ wp + rest < r.fifoEnd := by
  obtain ⟨len, hlen⟩ : ∃ len, len = min (min (r.writeSpace wp rp) rate) rest := ⟨_, rfl⟩
  rw [portion, ← hlen]
  by_cases hend : r.fifoEnd ≤ wp + len
  · left
    rw [if_pos hend, advance, if_pos hend]
    exact ⟨rfl, by simp⟩
  · rw [if_neg hend]
    by_cases hall : len = rest
    · right
      rw [if_pos hall, hall]
      exact ⟨rfl, rfl, by omega⟩
    · left
      rw [if_neg hall]
      dsimp only
      rw [advance, if_neg (by omega)]
      exact ⟨rfl, boundary_add hlow hwp len⟩

/-- Something is put into an empty fifo. -/
theorem portion_pos (hrate : r.block ≤ rate) (hrest : 0 < rest) (hlow : r.fifoStart ≤ wp)
    (hwp : wp < r.fifoEnd) : 0 < (r.portion rate rest wp wp).1 := by
  have hb := r.block_pos
  have htwo := r.two_blocks_le
  have hcap := r.fifoEnd_eq
  have hspace : r.writeSpace wp wp = r.fifoEnd - wp ∨
      r.block ≤ r.writeSpace wp wp := by
    rw [writeSpace, if_neg (Nat.lt_irrefl _)]
    split <;> omega
  obtain ⟨len, hlen⟩ : ∃ len, len = min (min (r.writeSpace wp wp) rate) rest := ⟨_, rfl⟩
  have hmod := Nat.mod_lt len hb
  rw [portion, ← hlen]
  split
  · dsimp only
    omega
  · split <;> dsimp only <;> omega

/-! ## The pointer behind the last byte -/

/-- A pointer that is rounded up stands at the place of a byte less than a block further on. -/
theorem roundUp_place {m t : Nat} (hend : r.place m + t < r.fifoEnd) :
    ∃ q, t ≤ q ∧ q < t + r.block ∧ r.place m + q ≤ r.fifoEnd ∧
      r.roundUp (r.place m + t) = r.place (m + q) := by
  have hb := r.block_pos
  have hlow := r.fifoStart_le_place m
  obtain ⟨up, hup⟩ : ∃ up, up = (r.place m + t - r.fifoStart + r.block - 1) / r.block * r.block :=
    ⟨_, rfl⟩
  have hle : up ≤ r.place m + t - r.fifoStart + r.block - 1 := hup ▸ Nat.div_mul_le_self _ _
  have hge : r.place m + t - r.fifoStart ≤ up := by
    have := Nat.lt_div_mul_add (a := r.place m + t - r.fifoStart + r.block - 1) hb
    omega
  rw [roundUp, ← hup]
  by_cases hover : r.fifoEnd ≤ r.fifoStart + up
  · rw [if_pos hover]
    exact ⟨r.fifoEnd - r.place m, by omega, by omega, by omega, (place_add_end (by omega)).symm⟩
  · rw [if_neg hover]
    refine ⟨r.fifoStart + up - r.place m, by omega, by omega, by omega, ?_⟩
    rw [place_add (by omega)]
    omega

/-- The next boundary is one. -/
theorem roundUp_boundary (ptr : Nat) : (r.roundUp ptr - r.fifoStart) % r.block = 0 := by
  rw [roundUp]
  split
  · simp
  · rw [Nat.add_sub_cancel_left, Nat.mul_mod_left]

/-- Rounding up does not take the writer around to the reader. -/
theorem rounded_lt {m t q : Nat} (hc : c ≤ m) (hm : m < c + r.capacity) (hpos : 0 < t)
    (ht : t ≤ r.writeSpace (r.place m) (r.place c)) (hq : q < t + r.block)
    (hend : r.place m + q ≤ r.fifoEnd) : m + q < c + r.capacity := by
  have hlow := r.fifoStart_le_place c
  have hcap := r.fifoEnd_eq
  rw [writeSpace] at ht
  rcases place_behind hc hm with h | h <;> split at ht
  · omega
  · split at ht <;> omega
  · omega
  · split at ht <;> omega

/-- The producer goes from boundary to boundary. -/
theorem portion_boundary (rate rest rp : Nat) (hwp : (wp - r.fifoStart) % r.block = 0)
    (hlow : r.fifoStart ≤ wp) :
    ((r.portion rate rest wp rp).2 - r.fifoStart) % r.block = 0 := by
  rcases portion_next rate rest rp hwp hlow with ⟨_, hn⟩ | ⟨_, hn, _⟩
  · exact hn
  · rw [hn]
    exact roundUp_boundary _

/-- Rounded up or not, the writer stays less than one fifo ahead: full is never taken for empty. -/
theorem portion_ahead {m : Nat} (rate rest : Nat) (hc : c ≤ m) (hm : m < c + r.capacity)
    (haligned : (r.place m - r.fifoStart) % r.block = 0)
    (hpos : 0 < (r.portion rate rest (r.place m) (r.place c)).1) :
    ∃ q, m + (r.portion rate rest (r.place m) (r.place c)).1 ≤ q ∧ q < c + r.capacity ∧
      (r.portion rate rest (r.place m) (r.place c)).2 = r.place q := by
  obtain ⟨hreach, hfit⟩ := writeSpace_lt hc hm
  obtain ⟨hspace, -⟩ := r.portion_le rate rest (r.place m) (r.place c)
  rcases portion_next rate rest (r.place c) haligned (r.fifoStart_le_place m) with
    ⟨hn, _⟩ | ⟨hall, hn, hshort⟩
  · refine ⟨_, Nat.le_refl _, by omega, ?_⟩
    rw [hn, advance_place (by omega)]
  · rw [hall] at hspace hpos ⊢
    obtain ⟨q, hq, hq', hqe, hround⟩ := roundUp_place hshort
    exact ⟨m + q, by omega, rounded_lt hc hm hpos hspace hq' hqe, hn.trans hround⟩

end Ring

/-- Putting a piece, and publishing the pointer behind it. -/
theorem Supply.Sound.supply {r : Ring} {order : Endian} {source : List UInt8} {w : Supply}
    (h : Sound r order source w) (hw : w.pending = 0) {t next : Nat}
    (ht : t ≤ r.writeSpace w.wp (w.memory.word order r.rpAddr))
    (hs : w.produced + t ≤ source.length)
    (hn : next = (r.advance w.wp t).1 ∨
      w.produced + t = source.length ∧ next = r.roundUp (w.wp + t)) :
    ∃ o, Sound r order source { w with
      memory := (w.memory.store w.wp ((source.drop w.produced).take t)).store r.wpAddr
        (order.encode 4 next)
      origin := o
      produced := w.produced + t
      wp := next
      pending := 0 } := by
  obtain ⟨memory, origin, wp, produced, pending, seen, acked⟩ := w
  obtain rfl : pending = 0 := hw
  have hput := h.put (k := t) (by simpa using ht) hs
  exact ⟨_, hput.publish (by simpa using hn)⟩

/-! ## The same in words -/

namespace Ring

variable {r : Ring} {wp len : Sim.Word}

/-- How far a pointer is from the start of the fifo. -/
theorem toNat_filled (hlow : r.fifoStart ≤ wp.toNat)
    (hsum : (wp + len).toNat = wp.toNat + len.toNat) :
    (wp + len - r.view.fifoStart).toNat = wp.toNat - r.fifoStart + len.toNat := by
  have hfs := r.toNat_view_fifoStart
  rw [BitVec.toNat_sub_of_le (by rw [BitVec.le_def]; omega), hsum, hfs]
  omega

/-- The pointer is rounded up. -/
theorem toNat_roundUp (hlow : r.fifoStart ≤ wp.toNat) (hend : (wp + len).toNat < r.fifoEnd)
    (hspare : r.fifoEnd + r.block < 0x100000000)
    (hsum : (wp + len).toNat = wp.toNat + len.toNat) :
    (if r.fifoEnd ≤ (r.view.fifoStart + (wp + len - r.view.fifoStart + r.view.block - 1) /
        r.view.block * r.view.block).toNat then r.view.fifoStart
      else r.view.fifoStart + (wp + len - r.view.fifoStart + r.view.block - 1) /
        r.view.block * r.view.block).toNat = r.roundUp (wp.toNat + len.toNat) := by
  have hfs := r.toNat_view_fifoStart
  have hbl := r.toNat_view_block
  have hb := r.block_pos
  have hfilled := toNat_filled hlow hsum
  obtain ⟨filled, hf⟩ : ∃ filled, filled = wp + len - r.view.fifoStart := ⟨_, rfl⟩
  rw [← hf] at hfilled ⊢
  have hsub : (filled + r.view.block - 1).toNat = filled.toNat + r.block - 1 := by bv_omega
  -- rounding up adds less than a block, so no word overflows
  have hdown : (filled.toNat + r.block - 1) / r.block * r.block ≤ filled.toNat + r.block - 1 :=
    Nat.div_mul_le_self _ _
  have hmul : ((filled + r.view.block - 1) / r.view.block * r.view.block).toNat =
      (filled.toNat + r.block - 1) / r.block * r.block := by
    rw [BitVec.toNat_mul, BitVec.toNat_udiv, hsub, hbl]
    exact Nat.mod_eq_of_lt (by omega)
  have hpad : (r.view.fifoStart +
      (filled + r.view.block - 1) / r.view.block * r.view.block).toNat =
      r.fifoStart + (filled.toNat + r.block - 1) / r.block * r.block := by
    rw [BitVec.toNat_add, hmul, hfs]
    exact Nat.mod_eq_of_lt (by omega)
  rw [roundUp, show wp.toNat + len.toNat - r.fifoStart = filled.toNat by omega]
  simp only [hpad]
  split
  · exact hfs
  · exact hpad

/-- From one boundary on, by whole blocks. -/
theorem toNat_wholeBlocks (hlow : r.fifoStart ≤ wp.toNat)
    (haligned : (wp.toNat - r.fifoStart) % r.block = 0)
    (hsum : (wp + len).toNat = wp.toNat + len.toNat) :
    (r.view.fifoStart + (wp + len - r.view.fifoStart) -
        (wp + len - r.view.fifoStart) % r.view.block).toNat =
      wp.toNat + (len.toNat - len.toNat % r.block) := by
  have hfs := r.toNat_view_fifoStart
  have hbl := r.toNat_view_block
  have hfilled := toNat_filled hlow hsum
  obtain ⟨filled, hf⟩ : ∃ filled, filled = wp + len - r.view.fifoStart := ⟨_, rfl⟩
  rw [← hf] at hfilled ⊢
  have hmod : (filled % r.view.block).toNat = len.toNat % r.block := by
    rw [BitVec.toNat_umod, hbl, hfilled, Nat.add_mod, haligned, Nat.zero_add, Nat.mod_mod]
  have hle : len.toNat % r.block ≤ len.toNat := Nat.mod_le _ _
  have hup : (r.view.fifoStart + filled).toNat = wp.toNat + len.toNat := by
    rw [BitVec.toNat_add]
    omega
  rw [BitVec.toNat_sub_of_le (by rw [BitVec.le_def]; omega), hup, hmod]
  omega

end Ring

namespace Sim

open Environment Supply

variable {r : Ring} {p : Producer}

/-- Words and numbers say the same of the room, ... -/
theorem Producer.toNat_room (hring : p.ring = r.view) {wp rp : Word} (hwp : wp.toNat < r.fifoEnd) :
    (p.room wp rp).toNat = r.writeSpace wp.toNat rp.toNat := by
  have hfe := r.toNat_view_fifoEnd
  have hfs := r.toNat_view_fifoStart
  have hbl := r.toNat_view_block
  have hslack : ∀ n : Word, (if n ≤ r.view.block then (0 : Word) else n - r.view.block).toNat =
      n.toNat - r.block := by
    intro n
    split <;> bv_omega
  rw [Producer.room, Ring.writeSpace, hring]
  simp only [BitVec.lt_def, hfs]
  split
  · rw [hslack, BitVec.toNat_sub_of_le (by bv_omega)]
  · split
    · rw [BitVec.toNat_sub_of_le (by bv_omega), hfe]
    · rw [hslack, BitVec.toNat_sub_of_le (by bv_omega), hfe]

/-- ... and of what is put there. -/
theorem Producer.toNat_piece (hring : p.ring = r.view) (hspare : r.fifoEnd + r.block < 0x100000000)
    {wp rp : Word} (hlow : r.fifoStart ≤ wp.toNat) (hwp : wp.toNat < r.fifoEnd)
    (haligned : (wp.toNat - r.fifoStart) % r.block = 0)
    (hk : p.produced.toNat ≤ p.total.toNat)
    (hspace : wp.toNat + r.writeSpace wp.toNat rp.toNat ≤ r.fifoEnd) :
    (p.piece wp rp).1.toNat = (r.portion p.rate.toNat (p.total.toNat - p.produced.toNat)
        wp.toNat rp.toNat).1 ∧
      (p.piece wp rp).2.toNat = (r.portion p.rate.toNat (p.total.toNat - p.produced.toNat)
        wp.toNat rp.toNat).2 := by
  have hfe := r.toNat_view_fifoEnd
  have hfs := r.toNat_view_fifoStart
  have hrest : (p.total - p.produced).toNat = p.total.toNat - p.produced.toNat :=
    BitVec.toNat_sub_of_le hk
  obtain ⟨len, hlen⟩ : ∃ len : Word,
    len = least (least (p.room wp rp) p.rate) (p.total - p.produced) := ⟨_, rfl⟩
  -- the least of the room, the rate and what is left, in words and in numbers
  have hnat : len.toNat = min (min (r.writeSpace wp.toNat rp.toNat) p.rate.toNat)
      (p.total.toNat - p.produced.toNat) := by
    rw [hlen, toNat_least, toNat_least, Producer.toNat_room hring hwp, hrest]
  have hsum : (wp + len).toNat = wp.toNat + len.toNat := by
    rw [BitVec.toNat_add]
    omega
  rw [Producer.piece, Ring.portion, hring, ← hnat]
  simp only [← hlen, BitVec.le_def, hsum, hfe]
  split
  · exact ⟨rfl, hfs⟩
  · have hall : len = p.total - p.produced ↔ len.toNat = p.total.toNat - p.produced.toNat := by
      rw [← hrest]
      exact ⟨congrArg _, BitVec.eq_of_toNat_eq⟩
    simp only [hall]
    -- the last piece is padded, any other is cut to whole blocks
    split
    · exact ⟨rfl, Ring.toNat_roundUp hlow (by omega) hspare hsum⟩
    · have hnext := Ring.toNat_wholeBlocks hlow haligned hsum
      refine ⟨?_, hnext⟩
      dsimp only
      rw [BitVec.toNat_sub_of_le (by rw [BitVec.le_def]; omega), hnext]
      omega

/-! ## One step -/

/-- A producer that has more to come, in a ring that was not given up, waits or puts a piece. -/
theorem Producer.step_eq {core : Core} {wp rp : Word} (hwp : core.loadWord p.ring.wpAddr = wp)
    (hrp : core.loadWord p.ring.rpAddr = rp) (hne : rp ≠ 0) (habort : p.abortAfter = none)
    (hmore : p.produced ≠ p.total) :
    p.step core = if (p.piece wp rp).1 = 0 then (.stay, p, core) else
      (.stay, { p with produced := p.produced + (p.piece wp rp).1 },
        (core.copy (p.src + p.produced) wp (p.piece wp rp).1.toNat).storeWord p.ring.wpAddr
          (p.piece wp rp).2) := by
  rw [Producer.step, hwp, hrp]
  simp only [hne, habort, hmore, Option.any_none, Bool.false_eq_true, ↓reduceIte]

/-- A step of the producer is a step of the program. -/
theorem Program.step_producer {core core' : Core} {q : Producer} {move : Move}
    (h : p.step core = (move, q, core')) :
    (Program.producer p).step core = (move, .producer q, core') := by
  rw [Program.step, h]

/-- The producer is to fill the ring with `len` bytes, from memory outside of it. -/
structure Producer.Suits (p : Producer) (r : Ring) (len : Nat) : Prop where
  ring : p.ring = r.view
  total : p.total.toNat = len
  rate : r.block ≤ p.rate.toNat
  steadfast : p.abortAfter = none
  mapped : 0 < len → fresh.core.memory.covers p.src.toNat len = true
  disjoint : 0 < len → p.src.toNat + len ≤ r.start ∨ r.fifoEnd ≤ p.src.toNat

/-- The producer when it has produced `k` bytes. -/
def Producer.after (p : Producer) (k : Nat) : Producer :=
  { p with produced := BitVec.ofNat 32 k }

/-- The producer `p` is at work, the host has read `n` bytes, and the abstract producer is where
    the other one is.  Behind the last byte the pointer may have been rounded up, but not so far
    that it came around to the host's. -/
structure Fills (r : Ring) (source : List UInt8) (p : Producer) (bps : List Word) (n : Nat)
    (w : Supply) (x : Sim) : Prop where
  knows : Engine.Upto r x.core.endian source n 0 w
  acked : w.acked = n
  settled : w.pending = 0
  memory : x.core.contents = w.memory
  layout : x.core.memory.layout = fresh.core.memory.layout
  status : x.status = .running (.producer (p.after w.produced)) (bps ++ [p.exit]) ∨
    w.produced = source.length ∧ Stopped bps p.exit x
  held : w.memory.slice p.src.toNat source.length = source
  aligned : (w.wp - r.fifoStart) % r.block = 0
  ahead : ∃ q, w.produced ≤ q ∧ q < n + r.capacity ∧ w.wp = r.place q

variable {source : List UInt8} {bps : List Word} {n k : Nat} {w : Supply} {x : Sim}

/-- At first nothing was put there. -/
theorem Producer.after_zero (h : p.produced = 0) : p.after 0 = p := by
  obtain ⟨ring, src, total, rate, exit, abortAfter, produced⟩ := p
  obtain rfl : produced = 0 := h
  rfl

/-- Pieces add up. -/
theorem Producer.after_add (p : Producer) (k : Nat) (take : Word) :
    p.after (k + take.toNat) = { p with produced := BitVec.ofNat 32 k + take } := by
  rw [after, BitVec.ofNat_add, BitVec.ofNat_toNat, BitVec.setWidth_eq]

/-- The count is that of the bytes put there. -/
theorem Producer.Suits.toNat_produced (hp : p.Suits r source.length) (hk : k ≤ source.length) :
    (p.after k).produced.toNat = k := by
  have := hp.total
  rw [after, BitVec.toNat_ofNat]
  omega

/-- What a step does before everything is produced: the producer waits, or it puts a piece. -/
theorem Producer.Suits.step_cases (hp : p.Suits r source.length)
    (hspare : r.fifoEnd + r.block < 0x100000000) {core : Core} (hk : k < source.length)
    (hc : n ≤ k) (hn : k < n + r.capacity)
    (hwp : (core.loadWord r.view.wpAddr).toNat = r.place k)
    (hrp : (core.loadWord r.view.rpAddr).toNat = r.place n)
    (haligned : (r.place k - r.fifoStart) % r.block = 0) :
    (r.portion p.rate.toNat (source.length - k) (r.place k) (r.place n)).1 = 0 ∧
      (p.after k).step core = (.stay, p.after k, core) ∨
    ∃ wp take next : Word, wp.toNat = r.place k ∧
      take.toNat = (r.portion p.rate.toNat (source.length - k) (r.place k) (r.place n)).1 ∧
      0 < take.toNat ∧
      next.toNat = (r.portion p.rate.toNat (source.length - k) (r.place k) (r.place n)).2 ∧
      (p.after k).step core = (.stay, p.after (k + take.toNat),
        (core.copy (p.src + BitVec.ofNat 32 k) wp take.toNat).storeWord r.view.wpAddr next) := by
  have hcount := hp.toNat_produced (Nat.le_of_lt hk)
  have hring : (p.after k).ring = r.view := hp.ring
  obtain ⟨wp, hwp'⟩ : ∃ wp, core.loadWord r.view.wpAddr = wp := ⟨_, rfl⟩
  obtain ⟨rp, hrp'⟩ : ∃ rp, core.loadWord r.view.rpAddr = rp := ⟨_, rfl⟩
  rw [hwp'] at hwp
  rw [hrp'] at hrp
  have htotal : (p.after k).total.toNat = source.length := hp.total
  have hmore : (p.after k).produced ≠ (p.after k).total := by
    intro heq
    have heq := congrArg BitVec.toNat heq
    omega
  have hstep := Producer.step_eq (p := p.after k) (hring ▸ hwp') (hring ▸ hrp')
    (Ring.ne_zero_of_place hrp) hp.steadfast hmore
  have hpiece : ((p.after k).piece wp rp).1.toNat = (r.portion p.rate.toNat
        ((p.after k).total.toNat - (p.after k).produced.toNat) wp.toNat rp.toNat).1 ∧
      ((p.after k).piece wp rp).2.toNat = (r.portion p.rate.toNat
        ((p.after k).total.toNat - (p.after k).produced.toNat) wp.toNat rp.toNat).2 := by
    refine Producer.toNat_piece hring hspare (hwp ▸ r.fifoStart_le_place k) (hwp ▸ r.place_lt k)
      (hwp ▸ haligned) (by omega) ?_
    rw [hwp, hrp]
    exact (Ring.writeSpace_lt hc hn).2
  rw [hcount, htotal, hwp, hrp] at hpiece
  obtain ⟨htake, hnext⟩ := hpiece
  obtain ⟨piece, hpiece⟩ : ∃ piece, (p.after k).piece wp rp = piece := ⟨_, rfl⟩
  rw [hpiece] at htake hnext hstep
  -- no room for a block, or none allowed yet
  by_cases hzero : piece.1 = 0
  · rw [if_pos hzero] at hstep
    exact Or.inl ⟨by rw [← htake, hzero]; rfl, hstep⟩
  · rw [if_neg hzero, hring] at hstep
    refine Or.inr ⟨wp, piece.1, piece.2, hwp, htake, ?_, hnext, ?_⟩
    · exact Nat.pos_of_ne_zero fun h0 => hzero (BitVec.eq_of_toNat_eq h0)
    · rw [hstep, Producer.after_add, hp.ring]
      rfl

namespace Fills

/-- Only core and status matter. -/
theorem congr {x' : Sim} (h : Fills r source p bps n w x) (hcore : x'.core = x.core)
    (hstatus : x'.status = x.status) : Fills r source p bps n w x' := by
  refine ⟨hcore ▸ h.knows, h.acked, h.settled, hcore ▸ h.memory, hcore ▸ h.layout, ?_, h.held,
    h.aligned, h.ahead⟩
  rcases h.status with hs | ⟨hall, hs⟩
  · exact Or.inl (hstatus.trans hs)
  · exact Or.inr ⟨hall, hstatus.trans hs.status, hcore ▸ hs.pc⟩

/-- Counting steps changes nothing. -/
theorem counted (h : Fills r source p bps n w x) : Fills r source p bps n w x.counted :=
  h.congr rfl rfl

/-- What was put there is published at once. -/
theorem published_eq (h : Fills r source p bps n w x) : w.published = w.produced := by
  rw [published, h.settled, Nat.sub_zero]

/-- How far the producer is ahead of the host. -/
theorem window (h : Fills r source p bps n w x) :
    n ≤ w.produced ∧ w.produced < n + r.capacity ∧ w.produced ≤ source.length := by
  have hs := h.knows.sound
  have hle := hs.seen_le
  have hroom := hs.room
  rw [h.knows.seen, h.published_eq] at hle
  rw [h.acked] at hroom
  exact ⟨hle, hroom, hs.produced_le⟩

/-- A producer that has more to come stands where the stream says. -/
theorem wp_eq (h : Fills r source p bps n w x) (hmore : w.produced < source.length) :
    w.wp = r.place w.produced := by
  rcases h.knows.sound.wp with hwp | hdone
  · rwa [h.published_eq] at hwp
  · rw [h.published_eq] at hdone
    omega

/-- What the pointer words say. -/
theorem words (h : Fills r source p bps n w x) :
    x.core.contents.word x.core.endian r.wpAddr = w.wp ∧
      x.core.contents.word x.core.endian r.rpAddr = r.place n := by
  have hs := h.knows.sound
  rw [h.memory]
  exact ⟨hs.wp_word, by rw [hs.rp_word, h.acked]⟩

/-- The program sees the same. -/
theorem pointers (h : Fills r source p bps n w x) (hram : r.InRam) :
    (x.core.loadWord r.view.wpAddr).toNat = w.wp ∧
      (x.core.loadWord r.view.rpAddr).toNat = r.place n := by
  rw [(hram.toNat_loadWord h.layout).1, (hram.toNat_loadWord h.layout).2]
  exact h.words

/-- A piece is put. -/
theorem moved (h : Fills r source p bps n w x) (hp : p.Suits r source.length) (hram : r.InRam)
    {x' : Sim} {wp take next : Word} (hwp : wp.toNat = r.place w.produced)
    (htake : take.toNat = (r.portion p.rate.toNat (source.length - w.produced)
      (r.place w.produced) (r.place n)).1) (hpos : 0 < take.toNat)
    (hnext : next.toNat = (r.portion p.rate.toNat (source.length - w.produced)
      (r.place w.produced) (r.place n)).2)
    (hmore : w.produced < source.length)
    (hcore : x'.core = (x.core.copy (p.src + BitVec.ofNat 32 w.produced) wp
      take.toNat).storeWord r.view.wpAddr next)
    (hstatus : x'.status =
      .running (.producer (p.after (w.produced + take.toNat))) (bps ++ [p.exit])) :
    ∃ w', Fills r source p bps n w' x' ∧ w'.produced = w.produced + take.toNat := by
  have hs := h.knows.sound
  have hne : 0 < source.length := by omega
  have hst := r.fifoStart_eq
  have hwpa : r.wpAddr = r.start := rfl
  have hpl := r.fifoStart_le_place w.produced
  have hat := h.wp_eq hmore
  have haligned := h.aligned
  rw [hat] at haligned
  obtain ⟨hle, hroom, -⟩ := h.window
  obtain ⟨hspace, hrest⟩ := r.portion_le p.rate.toNat (source.length - w.produced)
    (r.place w.produced) (r.place n)
  rw [← htake] at hspace hrest
  obtain ⟨hreach, hfit⟩ := Ring.writeSpace_lt hle hroom
  have hsrc := toNat_add_of_covers (hp.mapped hne) (Nat.le_of_lt hmore)
  have hsm : x.core.Maps (p.src + BitVec.ofNat 32 w.produced).toNat take.toNat :=
    Core.maps_of_layout h.layout (Memory.covers_within (hp.mapped hne) (by omega) (by omega))
  have hdm : x.core.Maps wp.toNat take.toNat := hram.maps_piece h.layout hwp (by omega)
  have hendian : x'.core.endian = x.core.endian := by rw [hcore]; rfl
  have hpiece : w.memory.slice (p.src.toNat + w.produced) take.toNat =
      (source.drop w.produced).take take.toNat := by
    have hpart := Contents.slice_part (m := w.memory) (a := p.src.toNat) (n := source.length)
      (k := w.produced) (t := take.toNat) (by omega)
    rw [h.held] at hpart
    exact hpart.symm
  have hmem : x'.core.contents =
      (w.memory.store w.wp ((source.drop w.produced).take take.toNat)).store r.wpAddr
        (x.core.endian.encode 4 next.toNat) := by
    rw [hcore, Core.contents_copy_storeWord hsm hdm
      (hram.maps_wpAddr h.layout r.toNat_view_wpAddr), Ring.toNat_view_wpAddr, hsrc, hwp, h.memory,
      hpiece, hat]
  have hout := hp.disjoint hne
  have hnext' := Ring.portion_next p.rate.toNat (source.length - w.produced) (r.place n)
    haligned hpl
  rw [← htake, ← hnext] at hnext'
  obtain ⟨o, hsound⟩ := hs.supply h.settled (t := take.toNat)
    (by rw [hat, hs.rp_word, h.acked]; exact hspace) (by omega) (by
      rw [hat]
      rcases hnext' with ⟨hn, _⟩ | ⟨ht, hn, _⟩
      · exact Or.inl hn
      · exact Or.inr ⟨by omega, by rw [ht]; exact hn⟩)
  refine ⟨{ w with
    memory := (w.memory.store w.wp ((source.drop w.produced).take take.toNat)).store r.wpAddr
      (x.core.endian.encode 4 next.toNat)
    origin := o
    produced := w.produced + take.toNat
    wp := next.toNat
    pending := 0 }, ⟨⟨hendian.symm ▸ hsound, h.knows.seen, Nat.zero_le _⟩, h.acked, rfl, hmem, ?_,
      Or.inl hstatus, ?_, ?_, ?_⟩, rfl⟩
  · rw [hcore]
    exact (Core.layout_storeWord _ _ _).trans ((Core.layout_copy _ _ _ _).trans h.layout)
  · -- the source lies outside of the ring
    have hlen : ((source.drop w.produced).take take.toNat).length = take.toNat := by
      rw [List.length_take, List.length_drop]
      omega
    refine (Contents.slice_store_of_disjoint ?_).trans
      ((Contents.slice_store_of_disjoint ?_).trans h.held)
    · rw [Endian.length_encode]
      omega
    · omega
  · show (next.toNat - r.fifoStart) % r.block = 0
    rw [hnext]
    exact Ring.portion_boundary _ _ _ haligned hpl
  · show ∃ q, w.produced + take.toNat ≤ q ∧ q < n + r.capacity ∧ next.toNat = r.place q
    rw [htake, hnext]
    exact Ring.portion_ahead _ _ hle hroom haligned (htake ▸ hpos)

/-- The step after the last byte ends the program. -/
theorem last (h : Fills r source p bps n w x) (hp : p.Suits r source.length) (hram : r.InRam)
    (hs : x.status = .running (.producer (p.after w.produced)) (bps ++ [p.exit]))
    (hall : w.produced = source.length) :
    x.step.core = x.core.setReg .pc p.exit ∧ x.step.status = .stopped (bps ++ [p.exit]) := by
  have hrp := (h.pointers hram).2
  have hne : x.core.loadWord p.ring.rpAddr ≠ 0 := hp.ring ▸ Ring.ne_zero_of_place hrp
  have hdone : (p.after w.produced).produced = p.total := by
    refine BitVec.eq_of_toNat_eq ?_
    rw [hp.toNat_produced (Nat.le_of_eq hall), hall, hp.total]
  have hstep : (p.after w.produced).step x.core =
      (.exit p.exit, p.after w.produced, x.core) := by
    have hring : (p.after w.produced).ring = p.ring := rfl
    have habort : (p.after w.produced).abortAfter = none := hp.steadfast
    have htotal : (p.after w.produced).total = p.total := rfl
    rw [Producer.step, hring, habort, htotal, hdone]
    simp only [hne, Option.any_none, Bool.false_eq_true, ↓reduceIte]
    rfl
  exact step_exit hs (Program.step_producer hstep) (by simp)

/-- A step of the producer. -/
theorem step (h : Fills r source p bps n w x) (hp : p.Suits r source.length) (hram : r.InRam) :
    ∃ w', Fills r source p bps n w' x.step ∧ w.produced ≤ w'.produced ∧
      (n < source.length → n < w'.produced) ∧
      (w.produced = source.length → Stopped bps p.exit x.step) := by
  obtain ⟨hle, hroom, hwhole⟩ := h.window
  obtain ⟨hwp, hrp⟩ := h.pointers hram
  rcases h.status with hs | ⟨hall, hs⟩
  · by_cases hall : w.produced = source.length
    · -- all has been produced: the program ends
      obtain ⟨hcore, hstatus⟩ := h.last hp hram hs hall
      have hstop : Stopped bps p.exit x.step :=
        ⟨hstatus, by rw [hcore]; exact RegisterFile.get_set_self _ _ _⟩
      refine ⟨w, ⟨?_, h.acked, h.settled, ?_, ?_, Or.inr ⟨hall, hstop⟩, h.held, h.aligned, h.ahead⟩,
        Nat.le_refl _, fun hlt => hall ▸ hlt, fun _ => hstop⟩
      · rw [hcore]
        exact h.knows
      · rw [hcore]
        exact h.memory
      · rw [hcore]
        exact h.layout
    · have hmore : w.produced < source.length := by omega
      have hat := h.wp_eq hmore
      rcases hp.step_cases hram.spare hmore hle hroom (hwp.trans hat) hrp (hat ▸ h.aligned) with
        ⟨hwait, hstep⟩ | ⟨wp, take, next, hwp, htake, hpos, hnext, hstep⟩
      · -- the producer waits, which it does not if the fifo is empty
        obtain ⟨hcore, hstatus⟩ := step_stay hs (Program.step_producer hstep)
        refine ⟨w, h.congr hcore (hstatus.trans hs.symm), Nat.le_refl _, fun hlt => ?_, hall.elim⟩
        refine Nat.lt_of_le_of_ne hle fun heq => ?_
        rw [← heq] at hwait
        have := Ring.portion_pos hp.rate (show 0 < source.length - n by omega)
          (r.fifoStart_le_place n) (r.place_lt n)
        omega
      · -- it puts a piece
        obtain ⟨hcore, hstatus⟩ := step_stay hs (Program.step_producer hstep)
        obtain ⟨w', hw', hcount⟩ := h.moved hp hram hwp htake hpos hnext hmore hcore hstatus
        exact ⟨w', hw', by omega, fun _ => by omega, hall.elim⟩
  · -- the program has ended before
    have hstep : x.step = x := step_halted (congrArg Status.state hs.status)
    rw [hstep]
    exact ⟨w, h, Nat.le_refl _, fun hlt => hall ▸ hlt, fun _ => hs⟩

end Fills

end Sim

end DebugLink
