import DebugLink.Proofs.Bench
import DebugLink.Proofs.Ring

/-!
# A consumer at the other end of a ring buffer

`Intake` is a target's memory together with a program that empties a ring buffer there, and
with what both sides have done so far.  The program may act between any two accesses of the
host: it takes bytes at its read pointer, as far as the write pointer allows, and publishes its
pointer behind them.

`Sound` is the invariant: the bytes between the two counters are in the fifo, each at its
place, and one block of the fifo stays unused.  It is kept by everything the consumer does
(`Sound.move`) and by the two kinds of write that a host makes: a piece into free room
(`Sound.piece`), and its pointer (`Sound.pointer`).
-/

namespace DebugLink

/-- Target memory with a consumer at work, and a record of what went through the ring. -/
structure Intake where
  memory : Contents
  /-- What the host has put into the fifo, in order. -/
  handed : List UInt8 := []
  /-- How much of it there was when the write pointer was last stored. -/
  published : Nat := 0
  /-- What the consumer has taken, in order. -/
  consumed : List UInt8 := []
  /-- The consumer's read pointer. -/
  rp : Nat
  /-- What was taken since the read pointer was last published. -/
  pending : Nat := 0

namespace Intake

/-- How much had been taken when the read pointer was last published. -/
def acked (w : Intake) : Nat :=
  w.consumed.length - w.pending

variable (r : Ring) (order : Endian) (total : Nat)

/-- What a conforming consumer may do at any moment.  `total` is the length of all the data: a
    read pointer off the block boundaries is published only behind the last byte of it. -/
inductive Move : Intake → Intake → Prop where
  | take (w : Intake) (k : Nat)
      (h : w.pending + k ≤ r.readSpace (w.memory.word order r.wpAddr) w.rp) :
      Move w { w with
        consumed := w.consumed ++ w.memory.slice (w.rp + w.pending) k
        pending := w.pending + k }
  | publish (w : Intake) (next : Nat) (hn : next = (r.advance w.rp w.pending).1)
      (h : (next - r.fifoStart) % r.block = 0 ∨ w.consumed.length = total) :
      Move w { w with
        memory := w.memory.store r.rpAddr (order.encode 4 next)
        rp := next
        pending := 0 }
  /-- Whatever else runs on the target keeps out of the ring. -/
  | elsewhere (w : Intake) (m : Contents)
      (h : ∀ x, r.start ≤ x → x < r.fifoEnd → m x = w.memory x) :
      Move w { w with memory := m }

/-- A write by the host: its pointer, or a piece of data. -/
def written (w : Intake) (a : Nat) (bs : List UInt8) : Intake :=
  if a = r.wpAddr then
    { w with memory := w.memory.store a bs, published := w.handed.length }
  else { w with memory := w.memory.store a bs, handed := w.handed ++ bs }

/-- What a refused write may leave behind: nothing; the pointer, if it was one; or, where a
    piece of data was to go, anything at all. -/
def Refused (w : Intake) (a : Nat) (bs : List UInt8) (w' : Intake) : Prop :=
  w' = w ∨ a = r.wpAddr ∧ w' = w.written r a bs ∨
    a ≠ r.wpAddr ∧ ∃ m : Contents,
      (∀ x, x < a ∨ a + bs.length ≤ x → m x = w.memory x) ∧ w' = { w with memory := m }

/-- A consumer on the bench. -/
def bench : Bench Intake where
  order := order
  memory := memory
  moves := Move r order total
  afterWrite := written r
  refuses := Refused r

/-- The ring was just emptied, and the consumer stands at its start. -/
structure Fresh (w : Intake) : Prop where
  wp : w.memory.word order r.wpAddr = r.fifoStart
  rp_word : w.memory.word order r.rpAddr = r.fifoStart
  rp : w.rp = r.fifoStart
  handed : w.handed = []
  published : w.published = 0
  consumed : w.consumed = []
  pending : w.pending = 0

/-- The host and the consumer agree on what is in the fifo. -/
structure Sound (data : List UInt8) (w : Intake) : Prop where
  handed : w.handed = data.take w.handed.length
  consumed : w.consumed = data.take w.consumed.length
  pending_le : w.pending ≤ w.consumed.length
  consumed_le : w.consumed.length ≤ w.published
  published_le : w.published ≤ w.handed.length
  room : w.handed.length + r.block ≤ w.acked + r.capacity
  wp : w.memory.word order r.wpAddr = r.place w.published
  rp_word : w.memory.word order r.rpAddr = w.rp
  rp : w.rp = r.place w.acked
  straight : w.rp + w.pending ≤ r.fifoEnd
  boundary : r.isValidPtr w.rp = true ∨ w.acked = data.length
  fifo : ∀ i, w.acked ≤ i → i < w.handed.length → data[i]? = some (w.memory (r.place i))

variable {r order total} {data : List UInt8} {w w' : Intake}

/-- A piece is handed over where it is written, ... -/
theorem written_piece (w : Intake) (n : Nat) (bs : List UInt8) :
    w.written r (r.place n) bs =
      { w with memory := w.memory.store (r.place n) bs, handed := w.handed ++ bs } := by
  have hpl := r.fifoStart_le_place n
  have hst := r.fifoStart_eq
  exact if_neg (by omega)

/-- ... and published with the pointer. -/
theorem written_pointer (w : Intake) (bs : List UInt8) :
    w.written r r.wpAddr bs =
      { w with memory := w.memory.store r.wpAddr bs, published := w.handed.length } :=
  if_pos rfl

namespace Sound

/-- No more is handed over than there is. -/
theorem handed_le (h : Sound r order data w) : w.handed.length ≤ data.length := by
  have := congrArg List.length h.handed
  rw [List.length_take] at this
  omega

/-- Only what was published is given back. -/
theorem acked_le (h : Sound r order data w) : w.acked ≤ w.published :=
  Nat.le_trans (Nat.sub_le _ _) h.consumed_le

/-- The host is less than one fifo ahead. -/
theorem ahead (h : Sound r order data w) : w.published < w.acked + r.capacity := by
  have := h.published_le
  have := h.room
  have := r.block_pos
  omega

/-- Equal pointers mean that all of what was published has been taken. -/
theorem all_taken (h : Sound r order data w)
    (heq : w.memory.word order r.wpAddr = w.memory.word order r.rpAddr) :
    w.consumed.length = w.published := by
  rw [h.wp, h.rp_word, h.rp] at heq
  have hacked : w.published = w.acked := Ring.eq_of_place_eq h.acked_le h.ahead heq
  refine Nat.le_antisymm h.consumed_le ?_
  rw [hacked]
  exact Nat.sub_le _ _

/-- A ring that was emptied is sound. -/
theorem fresh (h : Fresh r order w) : Sound r order data w where
  handed := by rw [h.handed]; rfl
  consumed := by rw [h.consumed]; rfl
  pending_le := by rw [h.pending]; exact Nat.zero_le _
  consumed_le := by rw [h.consumed, h.published]; exact Nat.le_refl _
  published_le := by rw [h.published]; exact Nat.zero_le _
  room := by
    have := r.two_blocks_le
    have := r.block_pos
    rw [h.handed]
    simp only [List.length_nil]
    omega
  wp := by rw [h.wp, h.published, Ring.place_zero]
  rp_word := by rw [h.rp_word, h.rp]
  rp := by rw [h.rp, acked, h.consumed, h.pending]; exact (r.place_zero).symm
  straight := by
    rw [h.rp, h.pending, Ring.fifoEnd_eq]
    exact Nat.le_add_right _ _
  boundary := by
    left
    rw [h.rp, Ring.isValidPtr_iff]
    refine ⟨Nat.le_refl _, ?_, by simp⟩
    have := r.capacity_pos
    rw [Ring.fifoEnd_eq]
    omega
  fifo := by
    intro i _ hi
    rw [h.handed] at hi
    exact absurd hi (Nat.not_lt_zero i)

/-- The next bytes to be taken, as they lie in the fifo. -/
theorem slice_eq (h : Sound r order data w) {k : Nat} (hk : w.consumed.length + k ≤ w.handed.length)
    (he : r.place w.acked + (w.pending + k) ≤ r.fifoEnd) :
    w.memory.slice (w.rp + w.pending) k = (data.drop w.consumed.length).take k := by
  have hd := h.handed_le
  have hp := h.pending_le
  refine Contents.slice_eq (by rw [List.length_take, List.length_drop]; omega) ?_
  intro i hi
  have hik : i < k := by
    rw [List.length_take] at hi
    omega
  -- byte `i` of the piece is byte `acked + pending + i` of the data
  have hplace : w.rp + w.pending + i = r.place (w.consumed.length + i) := by
    have hsum : w.consumed.length + i = w.acked + (w.pending + i) := by
      rw [acked]
      omega
    rw [hsum, Ring.place_add (by omega), h.rp]
    omega
  have hbyte := h.fifo (w.consumed.length + i) (by rw [acked]; omega) (by omega)
  rw [hplace, List.getElem_take, List.getElem_drop]
  rw [List.getElem?_eq_getElem (by omega)] at hbyte
  exact (Option.some.inj hbyte).symm

/-- Taking bytes. -/
theorem take (h : Sound r order data w) {k : Nat}
    (hk : w.pending + k ≤ r.readSpace (w.memory.word order r.wpAddr) w.rp) :
    Sound r order data { w with
      consumed := w.consumed ++ w.memory.slice (w.rp + w.pending) k
      pending := w.pending + k } := by
  have hp := h.pending_le
  rw [h.wp, h.rp] at hk
  obtain ⟨hle, hend⟩ := Ring.readSpace_le h.acked_le h.ahead
  have hcount : w.consumed.length + k ≤ w.published := by
    rw [acked] at hk hle
    omega
  have hslice := h.slice_eq (Nat.le_trans hcount h.published_le) (by omega)
  -- what is taken is not given back yet
  have hacked : acked { w with
      consumed := w.consumed ++ w.memory.slice (w.rp + w.pending) k
      pending := w.pending + k } = w.acked := by
    simp only [acked, List.length_append, Contents.length_slice]
    omega
  refine ⟨h.handed, ?_, ?_, ?_, h.published_le, ?_, h.wp, h.rp_word, ?_, ?_, ?_, ?_⟩
  · show w.consumed ++ _ = data.take (w.consumed ++ _).length
    rw [List.length_append, Contents.length_slice, List.take_add, ← h.consumed, hslice]
  · show w.pending + k ≤ (w.consumed ++ _).length
    rw [List.length_append, Contents.length_slice]
    omega
  · show (w.consumed ++ _).length ≤ w.published
    rw [List.length_append, Contents.length_slice]
    exact hcount
  · rw [hacked]; exact h.room
  · rw [hacked]; exact h.rp
  · show w.rp + (w.pending + k) ≤ r.fifoEnd
    rw [h.rp]
    omega
  · rw [hacked]; exact h.boundary
  · rw [hacked]; exact h.fifo

/-- The invariant sees the memory through the two pointers and the bytes on their way. -/
theorem congr_memory (h : Sound r order data w) {m : Contents}
    (hwp : m.word order r.wpAddr = w.memory.word order r.wpAddr)
    (hrp : m.word order r.rpAddr = w.memory.word order r.rpAddr)
    (hf : ∀ i, w.acked ≤ i → i < w.handed.length → m (r.place i) = w.memory (r.place i)) :
    Sound r order data { w with memory := m } where
  handed := h.handed
  consumed := h.consumed
  pending_le := h.pending_le
  consumed_le := h.consumed_le
  published_le := h.published_le
  room := h.room
  wp := hwp.trans h.wp
  rp_word := hrp.trans h.rp_word
  rp := h.rp
  straight := h.straight
  boundary := h.boundary
  fifo := by
    intro i hi hl
    rw [h.fifo i hi hl]
    exact congrArg some (hf i hi hl).symm

/-- Publishing the read pointer. -/
theorem publish (h : Sound r order data w) {next : Nat}
    (hn : next = (r.advance w.rp w.pending).1)
    (hb : (next - r.fifoStart) % r.block = 0 ∨ w.consumed.length = data.length) :
    Sound r order data { w with
      memory := w.memory.store r.rpAddr (order.encode 4 next)
      rp := next
      pending := 0 } := by
  have hp := h.pending_le
  have hsum : w.acked + w.pending = w.consumed.length := by
    rw [acked]
    omega
  -- what was taken does not go around the end of the fifo, so the pointer is where it belongs
  have hnext : next = r.place w.consumed.length := by
    have hs := h.straight
    rw [h.rp] at hn hs
    rw [hn, ← hsum]
    exact Ring.advance_place hs
  have hrp := r.rpAddr_eq
  have hst := r.fifoStart_eq
  have hlen : (order.encode 4 next).length = 4 := Endian.length_encode _ _ _
  have hroom := h.room
  refine ⟨h.handed, h.consumed, Nat.zero_le _, h.consumed_le, h.published_le, ?_, ?_, ?_, hnext,
    ?_, ?_, ?_⟩
  · show w.handed.length + r.block ≤ w.consumed.length + r.capacity
    omega
  · rw [← h.wp]
    exact Contents.word_store_of_disjoint order (by omega)
  · exact Contents.word_store_self order _ _ (hnext ▸ r.place_lt_word _)
  · show next ≤ r.fifoEnd
    rw [hnext]
    exact Nat.le_of_lt (r.place_lt _)
  · rcases hb with hb | hb
    · left
      rw [Ring.isValidPtr_iff]
      refine ⟨?_, ?_, hb⟩
      · rw [hnext]; exact r.fifoStart_le_place _
      · rw [hnext]; exact r.place_lt _
    · exact Or.inr hb
  · intro i hi hl
    have hi' : w.acked ≤ i := by
      have : w.consumed.length ≤ i := hi
      omega
    have hpi := r.fifoStart_le_place i
    rw [h.fifo i hi' hl]
    exact congrArg some (Contents.store_outside (by omega)).symm

/-- Nothing that a conforming consumer does breaks the agreement. -/
theorem move (h : Sound r order data w) (hm : Move r order data.length w w') :
    Sound r order data w' := by
  cases hm with
  | take k hk => exact h.take hk
  | publish next hn hb => exact h.publish hn hb
  | elsewhere m hm =>
      have hrp := r.rpAddr_eq
      have hst := r.fifoStart_eq
      have hend := r.fifoEnd_eq
      have hwp : r.wpAddr = r.start := rfl
      have hcap := r.two_blocks_le
      refine h.congr_memory ?_ ?_ ?_
      · exact Contents.word_congr order fun i hi => hm _ (by omega) (by omega)
      · exact Contents.word_congr order fun i hi => hm _ (by omega) (by omega)
      · intro i _ _
        have := r.fifoStart_le_place i
        exact hm _ (by omega) (r.place_lt i)

/-! ## What the host does -/

/-- The room for the next piece holds nothing that matters. -/
theorem scratch (h : Sound r order data w) {len : Nat} {m : Contents}
    (hl : w.handed.length + len + r.block ≤ w.acked + r.capacity)
    (he : r.place w.handed.length + len ≤ r.fifoEnd)
    (hm : ∀ x, x < r.place w.handed.length ∨ r.place w.handed.length + len ≤ x →
      m x = w.memory x) : Sound r order data { w with memory := m } := by
  have hrp := r.rpAddr_eq
  have hst := r.fifoStart_eq
  have hpl := r.fifoStart_le_place w.handed.length
  refine h.congr_memory ?_ ?_ ?_
  · exact Contents.word_congr order fun i hi => hm _ (by omega)
  · exact Contents.word_congr order fun i hi => hm _ (by omega)
  · intro i hi hi'
    exact hm _ (Ring.place_outside (by omega) he hi hi')

/-- Writing a piece. -/
theorem piece (h : Sound r order data w) {len : Nat}
    (hl : w.handed.length + len + r.block ≤ w.acked + r.capacity)
    (he : r.place w.handed.length + len ≤ r.fifoEnd)
    (hd : w.handed.length + len ≤ data.length) :
    Sound r order data
      (w.written r (r.place w.handed.length) ((data.drop w.handed.length).take len)) := by
  have hlen : ((data.drop w.handed.length).take len).length = len := by
    rw [List.length_take, List.length_drop]
    omega
  have hs := h.scratch hl he fun x hx => Contents.store_outside (hlen.symm ▸ hx)
  rw [written_piece]
  refine ⟨?_, hs.consumed, hs.pending_le, hs.consumed_le, ?_, ?_, hs.wp, hs.rp_word, hs.rp,
    hs.straight, hs.boundary, ?_⟩
  · show w.handed ++ _ = data.take (w.handed ++ _).length
    rw [List.length_append, hlen, List.take_add, ← h.handed]
  · show w.published ≤ (w.handed ++ _).length
    rw [List.length_append]
    exact Nat.le_trans h.published_le (Nat.le_add_right _ _)
  · show (w.handed ++ _).length + r.block ≤ w.acked + r.capacity
    rw [List.length_append, hlen]
    exact hl
  · intro i hi hi'
    have hi' : i < w.handed.length + len := by
      have hi' : i < (w.handed ++ _).length := hi'
      rwa [List.length_append, hlen] at hi'
    -- bytes that were handed over before lie elsewhere
    by_cases hold : i < w.handed.length
    · exact hs.fifo i hi hold
    · -- a byte of the new piece
      obtain ⟨t, rfl⟩ : ∃ t, i = w.handed.length + t := ⟨i - w.handed.length, by omega⟩
      rw [Ring.place_add (by omega)]
      show _ = some (Contents.store _ _ _ _)
      rw [Contents.store_inside (by omega), List.getElem_take, List.getElem_drop,
        List.getElem?_eq_getElem (by omega)]

/-- Storing the write pointer. -/
theorem pointer (h : Sound r order data w) :
    Sound r order data
      (w.written r r.wpAddr (order.encode 4 (r.place w.handed.length))) := by
  have hrp := r.rpAddr_eq
  have hst := r.fifoStart_eq
  have hlen : (order.encode 4 (r.place w.handed.length)).length = 4 :=
    Endian.length_encode _ _ _
  rw [written_pointer]
  refine ⟨h.handed, h.consumed, h.pending_le, Nat.le_trans h.consumed_le h.published_le,
    Nat.le_refl _, h.room, ?_, ?_, h.rp, h.straight, h.boundary, ?_⟩
  · exact Contents.word_store_self order _ _ (r.place_lt_word _)
  · exact (Contents.word_store_of_disjoint order (by omega)).trans h.rp_word
  · intro i hi hi'
    have hpi := r.fifoStart_le_place i
    rw [h.fifo i hi hi']
    exact congrArg some (Contents.store_outside (by omega)).symm

end Sound

end Intake

end DebugLink
