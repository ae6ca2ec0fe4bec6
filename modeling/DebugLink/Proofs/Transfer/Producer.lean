import DebugLink.Proofs.Bench
import DebugLink.Proofs.Ring

/-!
# A producer at the other end of a ring buffer

`Supply` is a target's memory together with a program that fills a ring buffer there from a
source, and with what both sides have done so far.  It remembers for each address WHICH byte of
the source the producer put there last (`origin`), and for each byte that the host has read
which one it was (`seen`): a byte that was read too early, twice, or after it had been
overwritten would show.

The producer may act between any two accesses of the host.  It publishes its pointer on block
boundaries; behind the last byte of the source it may round the pointer up to one.

`Sound` is the invariant.  It is kept by everything the producer does (`Sound.move`), by the
host's reads (`Sound.look`, `Sound.piece`) and by the host's pointer (`Sound.pointer`).
-/

namespace DebugLink

/-- What is known about memory: which byte of the source is at an address. -/
abbrev Origins := Nat → Option Nat

/-- Bytes number `n`, `n + 1`, ... are put at `a`; nothing of the source, if there is no `n`. -/
def Origins.mark (o : Origins) (a k : Nat) (n : Option Nat) : Origins :=
  fun x => if a ≤ x ∧ x < a + k then n.map (· + (x - a)) else o x

/-- Bytes that were put there bear their number, ... -/
theorem Origins.mark_inside {o : Origins} {a k n i : Nat} (hi : i < k) :
    o.mark a k (some n) (a + i) = some (n + i) := by
  simp [mark, hi]

/-- ... and the others what they bore. -/
theorem Origins.mark_outside {o : Origins} {a k x : Nat} {n : Option Nat}
    (h : x < a ∨ a + k ≤ x) : o.mark a k n x = o x :=
  if_neg (by omega)

/-- A pointer behind the last byte of a source, rounded up to a block boundary. -/
def Ring.roundUp (r : Ring) (ptr : Nat) : Nat :=
  let up := r.fifoStart + (ptr - r.fifoStart + r.block - 1) / r.block * r.block
  if r.fifoEnd ≤ up then r.fifoStart else up

/-- The next boundary is a place in the fifo, be it the first one. -/
theorem Ring.roundUp_lt (r : Ring) (ptr : Nat) : r.roundUp ptr < r.fifoEnd := by
  simp only [roundUp]
  split
  · exact r.fifoStart_lt
  · next h => exact Nat.lt_of_not_le h

/-- Target memory with a producer at work, and a record of what went through the ring. -/
structure Supply where
  memory : Contents
  origin : Origins := fun _ => none
  /-- The producer's write pointer. -/
  wp : Nat
  /-- How much of the source has been put into the fifo. -/
  produced : Nat := 0
  /-- How much of that since the write pointer was last published. -/
  pending : Nat := 0
  /-- Where the bytes come from that the host has read, in order. -/
  seen : List (Option Nat) := []
  /-- How many of them there were when the read pointer was last stored. -/
  acked : Nat := 0

namespace Supply

/-- How much had been put there when the write pointer was last published. -/
def published (w : Supply) : Nat :=
  w.produced - w.pending

variable (r : Ring) (order : Endian) (source : List UInt8)

/-- What a conforming producer may do at any moment. -/
inductive Move : Supply → Supply → Prop where
  | put (w : Supply) (k : Nat)
      (hk : w.pending + k ≤ r.writeSpace w.wp (w.memory.word order r.rpAddr))
      (hs : w.produced + k ≤ source.length) :
      Move w { w with
        memory := w.memory.store (w.wp + w.pending) ((source.drop w.produced).take k)
        origin := w.origin.mark (w.wp + w.pending) k (some w.produced)
        produced := w.produced + k
        pending := w.pending + k }
  | publish (w : Supply) (next : Nat)
      (h : next = (r.advance w.wp w.pending).1 ∧ (next - r.fifoStart) % r.block = 0 ∨
        w.produced = source.length ∧ next = r.roundUp (w.wp + w.pending)) :
      Move w { w with
        memory := w.memory.store r.wpAddr (order.encode 4 next)
        origin := w.origin.mark r.wpAddr 4 none
        wp := next
        pending := 0 }
  /-- Whatever else runs on the target keeps out of the ring. -/
  | elsewhere (w : Supply) (m : Contents) (o : Origins)
      (hm : ∀ x, r.start ≤ x → x < r.fifoEnd → m x = w.memory x)
      (ho : ∀ x, r.start ≤ x → x < r.fifoEnd → o x = w.origin x) :
      Move w { w with memory := m, origin := o }

/-- A read by the host: of a pointer, or of bytes in the fifo. -/
def looked (w : Supply) (a n : Nat) : Supply :=
  if a < r.fifoStart then w
  else { w with seen := w.seen ++ (List.range n).map fun i => w.origin (a + i) }

/-- A write by the host; it stores its pointer and nothing else. -/
def written (w : Supply) (a : Nat) (bs : List UInt8) : Supply :=
  { w with
    memory := w.memory.store a bs
    origin := w.origin.mark a bs.length none
    acked := w.seen.length }

/-- A producer on the bench.  A refused write may have taken effect nevertheless. -/
def bench : Bench Supply where
  order := order
  memory := memory
  moves := Move r order source
  afterRead := looked r
  afterWrite := written
  refuses := fun w a bs w' => w' = w ∨ w' = w.written a bs

/-- The ring was just emptied, and the producer stands at its start. -/
structure Fresh (w : Supply) : Prop where
  wp_word : w.memory.word order r.wpAddr = r.fifoStart
  rp_word : w.memory.word order r.rpAddr = r.fifoStart
  wp : w.wp = r.fifoStart
  produced : w.produced = 0
  pending : w.pending = 0
  seen : w.seen = []
  acked : w.acked = 0

/-- The host and the producer agree on what is in the fifo. -/
structure Sound (w : Supply) : Prop where
  produced_le : w.produced ≤ source.length
  pending_le : w.pending ≤ w.produced
  seen_le : w.seen.length ≤ w.published
  acked_le : w.acked ≤ w.seen.length
  room : w.produced < w.acked + r.capacity
  seen : w.seen = (List.range w.seen.length).map some
  /-- Behind the last byte, the pointer may be anywhere. -/
  wp : w.wp = r.place w.published ∨ w.published = source.length
  wp_lt : w.wp < r.fifoEnd
  straight : w.wp + w.pending ≤ r.fifoEnd
  wp_word : w.memory.word order r.wpAddr = w.wp
  rp_word : w.memory.word order r.rpAddr = r.place w.acked
  fifo : ∀ i, w.acked ≤ i → i < w.produced →
    source[i]? = some (w.memory (r.place i)) ∧ w.origin (r.place i) = some i

variable {r order source} {w w' : Supply}

/-- A look at the pointer tells nothing of the data. -/
theorem looked_pointer (w : Supply) (n : Nat) : w.looked r r.wpAddr n = w := by
  have hst := r.fifoStart_eq
  exact if_pos (by omega)

/-- A look at a piece tells where its bytes came from. -/
theorem looked_piece (w : Supply) (i n : Nat) :
    w.looked r (r.place i) n =
      { w with seen := w.seen ++ (List.range n).map fun t => w.origin (r.place i + t) } := by
  have hpl := r.fifoStart_le_place i
  exact if_neg (by omega)

namespace Sound

/-- The producer is less than one fifo ahead of what the host gave back. -/
theorem ahead (h : Sound r order source w) : w.published < w.acked + r.capacity :=
  Nat.lt_of_le_of_lt (Nat.sub_le _ _) h.room

/-- A ring that was emptied is sound. -/
theorem fresh (h : Fresh r order w) : Sound r order source w where
  produced_le := by rw [h.produced]; exact Nat.zero_le _
  pending_le := by rw [h.pending]; exact Nat.zero_le _
  seen_le := by rw [h.seen]; exact Nat.zero_le _
  acked_le := by rw [h.acked]; exact Nat.zero_le _
  room := by
    have := r.capacity_pos
    rw [h.produced]
    omega
  seen := by rw [h.seen]; rfl
  wp := by
    left
    rw [h.wp, published, h.produced, h.pending]
    exact r.place_zero.symm
  wp_lt := by
    rw [h.wp]
    exact r.fifoStart_lt
  straight := by
    rw [h.wp, h.pending, Ring.fifoEnd_eq]
    exact Nat.le_add_right _ _
  wp_word := by rw [h.wp_word, h.wp]
  rp_word := by rw [h.rp_word, h.acked, Ring.place_zero]
  fifo := by
    intro i _ hi
    rw [h.produced] at hi
    exact absurd hi (Nat.not_lt_zero i)

/-- The invariant sees the memory through the two pointers and the bytes on their way. -/
theorem congr_memory (h : Sound r order source w) {m : Contents} {o : Origins}
    (hp : ∀ i < 8, m (r.wpAddr + i) = w.memory (r.wpAddr + i))
    (hm : ∀ i, w.acked ≤ i → i < w.produced → m (r.place i) = w.memory (r.place i))
    (ho : ∀ i, w.acked ≤ i → i < w.produced → o (r.place i) = w.origin (r.place i)) :
    Sound r order source { w with memory := m, origin := o } where
  produced_le := h.produced_le
  pending_le := h.pending_le
  seen_le := h.seen_le
  acked_le := h.acked_le
  room := h.room
  seen := h.seen
  wp := h.wp
  wp_lt := h.wp_lt
  straight := h.straight
  wp_word := (Contents.word_congr order fun i hi => hp i (by omega)).trans h.wp_word
  -- the read pointer lies right behind the write pointer
  rp_word := by
    have hrp := r.rpAddr_eq
    refine (Contents.word_congr order fun i hi => ?_).trans h.rp_word
    rw [hrp, Nat.add_assoc]
    exact hp (4 + i) (by omega)
  fifo := by
    intro i hi hl
    obtain ⟨hbyte, horigin⟩ := h.fifo i hi hl
    exact ⟨hbyte.trans (congrArg some (hm i hi hl).symm), (ho i hi hl).trans horigin⟩

/-! ## What the producer does -/

/-- A producer that puts anything more stands where the stream says, and has room for it. -/
theorem straight_on (h : Sound r order source w) {k : Nat} (hpos : 0 < k)
    (hk : w.pending + k ≤ r.writeSpace w.wp (w.memory.word order r.rpAddr))
    (hs : w.produced + k ≤ source.length) :
    r.place w.produced = w.wp + w.pending ∧ w.wp + w.pending + k ≤ r.fifoEnd ∧
      w.produced + k < w.acked + r.capacity := by
  have hp := h.pending_le
  have hacked := Nat.le_trans h.acked_le h.seen_le
  have hsum : w.produced = w.published + w.pending := by
    rw [published]
    omega
  rcases h.wp with hwp | hdone
  · rw [h.rp_word, hwp] at hk
    obtain ⟨hroom, hend⟩ := Ring.writeSpace_lt hacked h.ahead
    refine ⟨?_, by omega, by omega⟩
    rw [hwp, hsum]
    exact Ring.place_add (by omega)
  · omega

/-- Putting bytes. -/
theorem put (h : Sound r order source w) {k : Nat}
    (hk : w.pending + k ≤ r.writeSpace w.wp (w.memory.word order r.rpAddr))
    (hs : w.produced + k ≤ source.length) :
    Sound r order source { w with
      memory := w.memory.store (w.wp + w.pending) ((source.drop w.produced).take k)
      origin := w.origin.mark (w.wp + w.pending) k (some w.produced)
      produced := w.produced + k
      pending := w.pending + k } := by
  have hp := h.pending_le
  have hst := r.fifoStart_eq
  have hlen : ((source.drop w.produced).take k).length = k := by
    rw [List.length_take, List.length_drop]
    omega
  have hon : 0 < k → _ := fun hpos => h.straight_on hpos hk hs
  have hlow := r.fifoStart_le_place w.produced
  -- the bytes that the host has not acknowledged yet lie elsewhere
  have hout : ∀ i, w.acked ≤ i → i < w.produced →
      r.place i < w.wp + w.pending ∨ w.wp + w.pending + k ≤ r.place i := by
    intro i hi hl
    rcases Nat.eq_zero_or_pos k with rfl | hpos
    · omega
    · obtain ⟨hplace, hend, hroom⟩ := hon hpos
      rw [← hplace]
      exact Ring.place_outside (Nat.le_of_lt hroom) (hplace ▸ hend) hi hl
  have hs' := h.congr_memory
    (m := w.memory.store (w.wp + w.pending) ((source.drop w.produced).take k))
    (o := w.origin.mark (w.wp + w.pending) k (some w.produced))
    (fun i hi => Contents.store_outside (by omega))
    (fun i hi hl => Contents.store_outside (hlen.symm ▸ hout i hi hl))
    (fun i hi hl => Origins.mark_outside (hout i hi hl))
  have hpub : published { w with
      memory := w.memory.store (w.wp + w.pending) ((source.drop w.produced).take k)
      origin := w.origin.mark (w.wp + w.pending) k (some w.produced)
      produced := w.produced + k
      pending := w.pending + k } = w.published := by
    simp only [published]
    omega
  refine ⟨hs, ?_, ?_, h.acked_le, ?_, h.seen, ?_, h.wp_lt, ?_, hs'.wp_word, hs'.rp_word, ?_⟩
  · show w.pending + k ≤ w.produced + k
    omega
  · rw [hpub]; exact h.seen_le
  · show w.produced + k < w.acked + r.capacity
    have := h.room
    omega
  · rw [hpub]; exact h.wp
  · show w.wp + (w.pending + k) ≤ r.fifoEnd
    have := h.straight
    omega
  · intro i hi hl
    by_cases hold : i < w.produced
    · exact hs'.fifo i hi hold
    · -- one of the new bytes
      obtain ⟨t, rfl⟩ : ∃ t, i = w.produced + t := ⟨i - w.produced, by omega⟩
      have ht : t < k := by
        have hl : w.produced + t < w.produced + k := hl
        omega
      obtain ⟨hplace, hend, _⟩ := hon (by omega)
      rw [Ring.place_add (by omega), hplace]
      refine ⟨?_, Origins.mark_inside ht⟩
      show _ = some (Contents.store _ _ _ _)
      rw [Contents.store_inside (by omega), List.getElem_take, List.getElem_drop,
        List.getElem?_eq_getElem (by omega)]

/-- Publishing the write pointer. -/
theorem publish (h : Sound r order source w) {next : Nat}
    (hn : next = (r.advance w.wp w.pending).1 ∨
      w.produced = source.length ∧ next = r.roundUp (w.wp + w.pending)) :
    Sound r order source { w with
      memory := w.memory.store r.wpAddr (order.encode 4 next)
      origin := w.origin.mark r.wpAddr 4 none
      wp := next
      pending := 0 } := by
  have hp := h.pending_le
  have hd := h.produced_le
  have hpub : w.published ≤ w.produced := Nat.sub_le _ _
  have hrp := r.rpAddr_eq
  have hst := r.fifoStart_eq
  have hlen : (order.encode 4 next).length = 4 := Endian.length_encode _ _ _
  have hlt : next < r.fifoEnd := by
    rcases hn with rfl | ⟨_, rfl⟩
    · exact r.advance_lt _ _
    · exact r.roundUp_lt _
  refine ⟨h.produced_le, Nat.zero_le _, ?_, h.acked_le, h.room, h.seen, ?_, hlt,
    Nat.le_of_lt hlt, ?_, ?_, ?_⟩
  · exact Nat.le_trans h.seen_le hpub
  · show next = r.place (w.produced - 0) ∨ w.produced - 0 = source.length
    rcases hn with rfl | ⟨hdone, _⟩
    · rcases h.wp with hwp | hdone
      · left
        have hs := h.straight
        have hsum : w.produced = w.published + w.pending := by
          rw [published]
          omega
        rw [hwp] at hs ⊢
        rw [Nat.sub_zero, hsum]
        exact Ring.advance_place hs
      · right
        omega
    · right
      exact hdone
  · exact Contents.word_store_self order _ _ (Nat.lt_trans hlt r.fifoEnd_lt)
  · exact (Contents.word_store_of_disjoint order (by omega)).trans h.rp_word
  · intro i hi hl
    have hpi := r.fifoStart_le_place i
    obtain ⟨hbyte, horigin⟩ := h.fifo i hi hl
    refine ⟨?_, ?_⟩
    · rw [hbyte]
      exact congrArg some (Contents.store_outside (by omega)).symm
    · rw [← horigin]
      exact Origins.mark_outside (by omega)

/-- Nothing that a conforming producer does breaks the agreement. -/
theorem move (h : Sound r order source w) (hm : Move r order source w w') :
    Sound r order source w' := by
  cases hm with
  | put k hk hs => exact h.put hk hs
  | publish next hn =>
      refine h.publish ?_
      rcases hn with ⟨hn, _⟩ | hn
      · exact Or.inl hn
      · exact Or.inr hn
  -- the ring is left alone, pointers and data
  | elsewhere m o hm ho =>
      have hst := r.fifoStart_eq
      have hend := r.fifoEnd_eq
      have hwp : r.wpAddr = r.start := rfl
      have hin : ∀ i, r.start ≤ r.place i := by
        intro i
        have := r.fifoStart_le_place i
        omega
      refine h.congr_memory ?_ ?_ ?_
      · intro i hi
        exact hm _ (by omega) (by omega)
      · intro i _ _
        exact hm _ (hin i) (r.place_lt i)
      · intro i _ _
        exact ho _ (hin i) (r.place_lt i)

/-! ## What the host does -/

/-- A piece that was published is, byte for byte, the next one of the source. -/
theorem piece_eq (h : Sound r order source w) {len : Nat}
    (hl : w.seen.length + len ≤ w.published) (he : r.place w.seen.length + len ≤ r.fifoEnd) :
    w.memory.slice (r.place w.seen.length) len = (source.drop w.seen.length).take len ∧
    (List.range len).map (fun t => w.origin (r.place w.seen.length + t)) =
      (List.range len).map fun t => some (w.seen.length + t) := by
  have hd := h.produced_le
  have ha := h.acked_le
  have hpub : w.published ≤ w.produced := Nat.sub_le _ _
  -- byte by byte: each of them was put there, and is still there
  have hbyte : ∀ t < len,
      source[w.seen.length + t]? = some (w.memory (r.place w.seen.length + t)) ∧
      w.origin (r.place w.seen.length + t) = some (w.seen.length + t) := by
    intro t ht
    rw [← Ring.place_add (by omega)]
    exact h.fifo _ (by omega) (by omega)
  constructor
  · refine Contents.slice_eq (by rw [List.length_take, List.length_drop]; omega) ?_
    intro t ht
    have ht' : t < len := by
      rw [List.length_take] at ht
      omega
    have hb := (hbyte t ht').1
    rw [List.getElem?_eq_getElem (by omega)] at hb
    rw [List.getElem_take, List.getElem_drop]
    exact (Option.some.inj hb).symm
  · refine List.map_congr_left ?_
    intro t ht
    exact (hbyte t (List.mem_range.mp ht)).2

/-- Reading a piece. -/
theorem piece (h : Sound r order source w) {len : Nat}
    (hl : w.seen.length + len ≤ w.published) (he : r.place w.seen.length + len ≤ r.fifoEnd) :
    Sound r order source (w.looked r (r.place w.seen.length) len) := by
  have ha := h.acked_le
  have hseen := (h.piece_eq hl he).2
  rw [looked_piece]
  refine ⟨h.produced_le, h.pending_le, ?_, ?_, h.room, ?_, h.wp, h.wp_lt, h.straight, h.wp_word,
    h.rp_word, h.fifo⟩
  · show (w.seen ++ _).length ≤ w.published
    rw [List.length_append, List.length_map, List.length_range]
    exact hl
  · show w.acked ≤ (w.seen ++ _).length
    rw [List.length_append]
    omega
  · show w.seen ++ _ = (List.range (w.seen ++ _).length).map some
    rw [List.length_append, List.length_map, List.length_range, List.range_add, List.map_append,
      ← h.seen, hseen, List.map_map]
    rfl

/-- Storing the read pointer. -/
theorem pointer (h : Sound r order source w) :
    Sound r order source (w.written r.rpAddr (order.encode 4 (r.place w.seen.length))) := by
  have hrp := r.rpAddr_eq
  have hst := r.fifoStart_eq
  have ha := h.acked_le
  have hlen : (order.encode 4 (r.place w.seen.length)).length = 4 := Endian.length_encode _ _ _
  refine ⟨h.produced_le, h.pending_le, h.seen_le, Nat.le_refl _, ?_, h.seen, h.wp, h.wp_lt,
    h.straight, ?_, ?_, ?_⟩
  · show w.produced < w.seen.length + r.capacity
    have := h.room
    omega
  · exact (Contents.word_store_of_disjoint order (by omega)).trans h.wp_word
  · exact Contents.word_store_self order _ _ (r.place_lt_word _)
  · -- fewer bytes are promised, and the pointer is not among them
    intro i hi hl
    have hi : w.seen.length ≤ i := hi
    have hpi := r.fifoStart_le_place i
    obtain ⟨hbyte, horigin⟩ := h.fifo i (by omega) hl
    refine ⟨?_, ?_⟩
    · rw [hbyte]
      exact congrArg some (Contents.store_outside (by omega)).symm
    · rw [← horigin]
      exact Origins.mark_outside (by omega)

end Sound

end Supply

end DebugLink
