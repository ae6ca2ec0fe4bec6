import DebugLink.Proofs.Sim.Transfer
import DebugLink.Proofs.Transfer.WriteSafety

/-!
# The simulated consumer, step by step

A step of the simulated consumer is some of the moves that a conforming consumer may make
(`Intake.Move`): it takes a piece, copies it to its destination, and publishes its pointer.  So
what is known of those, above all `Intake.Sound`, is known of this one.

* `Drains` relates the target to an `Intake`, which says what has gone through the ring.
* `Drains.step`: a step keeps this up, and MAKES PROGRESS unless less than a block is there and
  more is to come.
* `Drains.last`: the step after the last byte ends the program.
-/

namespace DebugLink

/-! ## How much is taken -/

namespace Ring

/-- How many bytes a consumer takes at `rp`, if `rest` are still to come and one step takes no
    more than `rate`: whole blocks, except for the last ones and for the end of the fifo. -/
def bite (r : Ring) (rate rest wp rp : Nat) : Nat :=
  let len := min (min (r.readSpace wp rp) rate) rest
  if len < rest ∧ rp + len < r.fifoEnd then len - len % r.block else len

variable {r : Ring} {rate rest wp rp c n : Nat}

/-- No more is taken than there is, and no more than is wanted. -/
theorem bite_le (r : Ring) (rate rest wp rp : Nat) :
    r.bite rate rest wp rp ≤ r.readSpace wp rp ∧ r.bite rate rest wp rp ≤ rest := by
  rw [bite]
  split <;> omega

/-- A bite that is not the last one ends on a block boundary. -/
theorem bite_boundary (rate rest wp : Nat) (hv : r.isValidPtr rp = true) :
    ((r.advance rp (r.bite rate rest wp rp)).1 - r.fifoStart) % r.block = 0 ∨
      r.bite rate rest wp rp = rest := by
  obtain ⟨hlow, -, hrp⟩ := isValidPtr_iff.mp hv
  obtain ⟨len, hlen⟩ : ∃ len, len = min (min (r.readSpace wp rp) rate) rest := ⟨_, rfl⟩
  rw [bite, ← hlen]
  by_cases hcut : len < rest ∧ rp + len < r.fifoEnd
  · -- cut down to whole blocks
    left
    rw [if_pos hcut, advance, if_neg (by omega)]
    exact boundary_add hlow hrp len
  · rw [if_neg hcut]
    by_cases hend : r.fifoEnd ≤ rp + len
    · left
      rw [advance, if_pos hend, Nat.sub_self, Nat.zero_mod]
    · right
      omega

/-- Something is taken if there is a block, or if nothing is to come anymore. -/
theorem bite_pos (rest : Nat) (hrate : r.block ≤ rate) (hc : c < n) (hn : n < c + r.capacity)
    (hwhole : n = c + rest ∨ c + r.block ≤ n) (hrest : n ≤ c + rest) :
    0 < r.bite rate rest (r.place n) (r.place c) := by
  have hb := r.block_pos
  have hne := place_ne hc hn
  have hpl := r.place_lt c
  have hspace : 0 < r.readSpace (r.place n) (r.place c) := by
    rw [readSpace]
    split <;> omega
  -- what may be read ends at the writer, or at the end of the fifo
  have hall : c + r.readSpace (r.place n) (r.place c) = n ∨
      r.place c + r.readSpace (r.place n) (r.place c) = r.fifoEnd := by
    rw [readSpace]
    rcases place_behind (Nat.le_of_lt hc) hn with h | h <;> split <;> omega
  rw [bite]
  split
  · next hcut =>
    have hmod := Nat.mod_lt (min (min (r.readSpace (r.place n) (r.place c)) rate) rest) hb
    omega
  · omega

end Ring

/-- Taking a piece, putting it somewhere else, and publishing the pointer behind it. -/
theorem Intake.Sound.drain {r : Ring} {order : Endian} {data : List UInt8} {w : Intake}
    (h : Sound r order data w) (hw : w.pending = 0) {t next : Nat} {m : Contents}
    (ht : t ≤ r.readSpace (w.memory.word order r.wpAddr) w.rp)
    (hm : ∀ x, r.start ≤ x → x < r.fifoEnd → m x = w.memory x)
    (hn : next = (r.advance w.rp t).1)
    (hb : (next - r.fifoStart) % r.block = 0 ∨ w.consumed.length + t = data.length) :
    Sound r order data { w with
      memory := m.store r.rpAddr (order.encode 4 next)
      consumed := w.consumed ++ w.memory.slice w.rp t
      rp := next
      pending := 0 } := by
  obtain ⟨memory, handed, published, consumed, rp, pending⟩ := w
  obtain rfl : pending = 0 := hw
  have htake := h.take (k := t) (by simpa using ht)
  have hcopy := htake.move (.elsewhere _ m hm)
  exact hcopy.publish (by simpa using hn) (by simpa using hb)

namespace Sim

open Environment Intake

variable {r : Ring} {p : Consumer}

/-- Words and numbers say the same of what is taken. -/
theorem Consumer.toNat_take (hring : p.ring = r.view) {wp rp : Word} (hwp : wp.toNat < r.fifoEnd)
    (hrp : rp.toNat < r.fifoEnd) (hne : wp ≠ rp) (hk : p.consumed.toNat ≤ p.total.toNat) :
    (p.take wp rp).toNat =
      r.bite p.rate.toNat (p.total.toNat - p.consumed.toNat) wp.toNat rp.toNat := by
  have hend := r.fifoEnd_lt
  have havail : (if wp > rp then wp - rp else r.view.fifoEnd - rp).toNat =
      r.readSpace wp.toNat rp.toNat := by
    have hfe := r.toNat_view_fifoEnd
    rw [Ring.readSpace]
    split <;> split <;> bv_omega
  have hrest : (p.total - p.consumed).toNat = p.total.toNat - p.consumed.toNat :=
    BitVec.toNat_sub_of_le hk
  have hspace := Ring.readSpace_fits hwp hrp
  obtain ⟨len, hlen⟩ : ∃ len : Word, len = least (least
    (if wp > rp then wp - rp else r.view.fifoEnd - rp) p.rate) (p.total - p.consumed) := ⟨_, rfl⟩
  have hnat : len.toNat = min (min (r.readSpace wp.toNat rp.toNat) p.rate.toNat)
      (p.total.toNat - p.consumed.toNat) := by
    rw [hlen, toNat_least, toNat_least, havail, hrest]
  have hsum : (rp + len).toNat = rp.toNat + len.toNat := by
    rw [BitVec.toNat_add]
    omega
  -- the bytes behind the last whole block are left for later
  have hcut : (len - len % r.view.block).toNat = len.toNat - len.toNat % r.block := by
    rw [BitVec.toNat_sub_of_le, BitVec.toNat_umod, r.toNat_view_block]
    rw [BitVec.le_def, BitVec.toNat_umod]
    exact Nat.mod_le _ _
  rw [Consumer.take, Ring.bite, hring, ← hnat]
  simp only [← hlen]
  simp only [BitVec.lt_def, hsum, hrest, Ring.toNat_view_fifoEnd]
  split
  · exact hcut
  · rfl

/-! ## One step -/

/-- A consumer that has more to come, in a ring that was not given up, waits or takes a piece. -/
theorem Consumer.step_eq {core : Core} {wp rp : Word} (hwp : core.loadWord p.ring.wpAddr = wp)
    (hrp : core.loadWord p.ring.rpAddr = rp) (hne : wp ≠ 0) (habort : p.abortAfter = none)
    (hmore : p.consumed ≠ p.total) :
    p.step core = if wp = rp ∨ p.take wp rp = 0 then (.stay, p, core) else
      (.stay, { p with consumed := p.consumed + p.take wp rp },
        (core.copy rp (p.dest + p.consumed) (p.take wp rp).toNat).storeWord p.ring.rpAddr
          (if p.ring.fifoEnd ≤ rp + p.take wp rp then p.ring.fifoStart
            else rp + p.take wp rp)) := by
  rw [Consumer.step, hwp, hrp]
  simp only [hne, habort, hmore, Option.any_none, Bool.false_eq_true, ↓reduceIte]
  by_cases heq : wp = rp
  · simp [heq]
  · simp [heq]

/-- A step of the consumer is a step of the program. -/
theorem Program.step_consumer {core core' : Core} {q : Consumer} {move : Move}
    (h : p.step core = (move, q, core')) :
    (Program.consumer p).step core = (move, .consumer q, core') := by
  rw [Program.step, h]

/-- The consumer is to drain `len` bytes from the ring, into memory outside of it. -/
structure Consumer.Suits (p : Consumer) (r : Ring) (len : Nat) : Prop where
  ring : p.ring = r.view
  total : p.total.toNat = len
  rate : r.block ≤ p.rate.toNat
  steadfast : p.abortAfter = none
  mapped : 0 < len → fresh.core.memory.covers p.dest.toNat len = true
  disjoint : 0 < len → p.dest.toNat + len ≤ r.start ∨ r.fifoEnd ≤ p.dest.toNat

/-- The consumer when it has drained `k` bytes. -/
def Consumer.after (p : Consumer) (k : Nat) : Consumer :=
  { p with consumed := BitVec.ofNat 32 k }

/-- The consumer `p` is at work on `n` bytes of the data, and the abstract one is where it is. -/
structure Drains (r : Ring) (data : List UInt8) (p : Consumer) (bps : List Word) (n : Nat)
    (w : Intake) (x : Sim) : Prop where
  knows : Engine.At r x.core.endian data n n 0 w
  settled : w.pending = 0
  memory : x.core.contents = w.memory
  layout : x.core.memory.layout = fresh.core.memory.layout
  status : x.status = .running (.consumer (p.after w.consumed.length)) bps
  drained : w.memory.slice p.dest.toNat w.consumed.length = w.consumed

variable {data : List UInt8} {bps : List Word} {n k : Nat} {w : Intake} {x : Sim}

/-- At first nothing was taken. -/
theorem Consumer.after_zero (h : p.consumed = 0) : p.after 0 = p := by
  obtain ⟨ring, dest, total, rate, exit, abortAfter, consumed⟩ := p
  obtain rfl : consumed = 0 := h
  rfl

/-- Pieces add up. -/
theorem Consumer.after_add (p : Consumer) (k : Nat) (take : Word) :
    p.after (k + take.toNat) = { p with consumed := BitVec.ofNat 32 k + take } := by
  rw [after, BitVec.ofNat_add, BitVec.ofNat_toNat, BitVec.setWidth_eq]

/-- The count is that of the bytes taken. -/
theorem Consumer.Suits.toNat_consumed (hp : p.Suits r data.length) (hk : k ≤ data.length) :
    (p.after k).consumed.toNat = k := by
  have := hp.total
  rw [after, BitVec.toNat_ofNat]
  omega

/-- What a step does before everything is drained: the consumer waits, or it takes a piece. -/
theorem Consumer.Suits.step_cases (hp : p.Suits r data.length) {core : Core} (hk : k < data.length)
    (hwp : (core.loadWord r.view.wpAddr).toNat = r.place n)
    (hrp : (core.loadWord r.view.rpAddr).toNat = r.place k) :
    (r.place n = r.place k ∨
        r.bite p.rate.toNat (data.length - k) (r.place n) (r.place k) = 0) ∧
      (p.after k).step core = (.stay, p.after k, core) ∨
    ∃ rp take next : Word, rp.toNat = r.place k ∧
      take.toNat = r.bite p.rate.toNat (data.length - k) (r.place n) (r.place k) ∧
      0 < take.toNat ∧ next.toNat = (r.advance (r.place k) take.toNat).1 ∧
      (p.after k).step core = (.stay, p.after (k + take.toNat),
        (core.copy rp (p.dest + BitVec.ofNat 32 k) take.toNat).storeWord r.view.rpAddr next) := by
  have hcount := hp.toNat_consumed (Nat.le_of_lt hk)
  have hring : (p.after k).ring = r.view := hp.ring
  obtain ⟨wp, hwp'⟩ : ∃ wp, core.loadWord r.view.wpAddr = wp := ⟨_, rfl⟩
  obtain ⟨rp, hrp'⟩ : ∃ rp, core.loadWord r.view.rpAddr = rp := ⟨_, rfl⟩
  rw [hwp'] at hwp
  rw [hrp'] at hrp
  have hmore : (p.after k).consumed ≠ (p.after k).total := by
    intro heq
    have heq := congrArg BitVec.toNat heq
    rw [hcount, show (p.after k).total = p.total from rfl, hp.total] at heq
    omega
  have hstep := Consumer.step_eq (p := p.after k) (hring ▸ hwp') (hring ▸ hrp')
    (Ring.ne_zero_of_place hwp) hp.steadfast hmore
  by_cases heq : wp = rp
  · rw [if_pos (Or.inl heq)] at hstep
    exact Or.inl ⟨Or.inl (by rw [← hwp, ← hrp, heq]), hstep⟩
  · have htake : ((p.after k).take wp rp).toNat =
        r.bite p.rate.toNat (p.total.toNat - (p.after k).consumed.toNat) wp.toNat rp.toNat :=
      Consumer.toNat_take hring (hwp ▸ r.place_lt n) (hrp ▸ r.place_lt k) heq
        (by rw [hcount, show (p.after k).total = p.total from rfl, hp.total]; exact Nat.le_of_lt hk)
    rw [hcount, hp.total, hwp, hrp] at htake
    obtain ⟨take, htake'⟩ : ∃ take, (p.after k).take wp rp = take := ⟨_, rfl⟩
    rw [htake'] at htake hstep
    -- not even a block may be taken yet
    by_cases hzero : take = 0
    · rw [if_pos (Or.inr hzero)] at hstep
      exact Or.inl ⟨Or.inr (by rw [← htake, hzero]; rfl), hstep⟩
    · have hfits : rp.toNat + take.toNat ≤ r.fifoEnd := by
        have hle := (r.bite_le p.rate.toNat (data.length - k) (r.place n) (r.place k)).1
        have hspace := Ring.readSpace_fits (r.place_lt n) (r.place_lt k)
        omega
      rw [if_neg (not_or.mpr ⟨heq, hzero⟩), hring] at hstep
      refine Or.inr ⟨rp, take, _, hrp, htake, ?_, hrp ▸ r.toNat_advance hfits, ?_⟩
      · exact Nat.pos_of_ne_zero fun h0 => hzero (BitVec.eq_of_toNat_eq h0)
      · rw [hstep, Consumer.after_add, hp.ring]
        rfl

namespace Drains

/-- Only core and status matter. -/
theorem congr {x' : Sim} (h : Drains r data p bps n w x) (hcore : x'.core = x.core)
    (hstatus : x'.status = x.status) : Drains r data p bps n w x' :=
  ⟨hcore ▸ h.knows, h.settled, hcore ▸ h.memory, hcore ▸ h.layout, hstatus.trans h.status,
    h.drained⟩

/-- Counting steps changes nothing. -/
theorem counted (h : Drains r data p bps n w x) : Drains r data p bps n w x.counted :=
  h.congr rfl rfl

/-- What was taken was given back. -/
theorem acked_eq (h : Drains r data p bps n w x) : w.acked = w.consumed.length := by
  rw [acked, h.settled, Nat.sub_zero]

/-- How far the consumer is behind the host. -/
theorem window (h : Drains r data p bps n w x) :
    w.consumed.length ≤ n ∧ n + r.block ≤ w.consumed.length + r.capacity ∧ n ≤ data.length :=
  h.knows.window h.settled

/-- The read pointer is at the next byte to be taken. -/
theorem rp_eq (h : Drains r data p bps n w x) : w.rp = r.place w.consumed.length :=
  h.knows.rp_eq h.settled

/-- Both pointer words say where the streams are. -/
theorem words (h : Drains r data p bps n w x) :
    x.core.contents.word x.core.endian r.wpAddr = r.place n ∧
      x.core.contents.word x.core.endian r.rpAddr = r.place w.consumed.length := by
  rw [h.memory]
  exact h.knows.words h.settled

/-- A pointer that is not behind the last byte is on a block boundary. -/
theorem boundary (h : Drains r data p bps n w x) (hmore : w.consumed.length < data.length) :
    r.isValidPtr (r.place w.consumed.length) = true := by
  have hall := h.acked_eq
  rcases h.knows.sound.boundary with hv | hdone
  · rwa [h.rp_eq] at hv
  · omega

/-- The program sees them there. -/
theorem pointers (h : Drains r data p bps n w x) (hram : r.InRam) :
    (x.core.loadWord r.view.wpAddr).toNat = r.place n ∧
      (x.core.loadWord r.view.rpAddr).toNat = r.place w.consumed.length := by
  rw [(hram.toNat_loadWord h.layout).1, (hram.toNat_loadWord h.layout).2]
  exact h.words

/-- A piece is taken. -/
theorem moved (h : Drains r data p bps n w x) (hp : p.Suits r data.length) (hram : r.InRam)
    {x' : Sim} {rp take next : Word} (hrp : rp.toNat = r.place w.consumed.length)
    (htake : take.toNat = r.bite p.rate.toNat (data.length - w.consumed.length) (r.place n)
      (r.place w.consumed.length))
    (hnext : next.toNat = (r.advance (r.place w.consumed.length) take.toNat).1)
    (hmore : w.consumed.length < data.length)
    (hcore : x'.core = (x.core.copy rp (p.dest + BitVec.ofNat 32 w.consumed.length)
      take.toNat).storeWord r.view.rpAddr next)
    (hstatus : x'.status = .running (.consumer (p.after (w.consumed.length + take.toNat))) bps) :
    ∃ w', Drains r data p bps n w' x' ∧ w'.consumed.length = w.consumed.length + take.toNat := by
  have hs := h.knows.sound
  have hne : 0 < data.length := by omega
  have hst := r.fifoStart_eq
  have hrpa := r.rpAddr_eq
  have hwpa : r.wpAddr = r.start := rfl
  have hb := r.block_pos
  have hpl := r.fifoStart_le_place w.consumed.length
  obtain ⟨hle, hroom, -⟩ := h.window
  obtain ⟨hbite, hrest⟩ := r.bite_le p.rate.toNat (data.length - w.consumed.length) (r.place n)
    (r.place w.consumed.length)
  rw [← htake] at hbite hrest
  obtain ⟨hreach, hfit⟩ := Ring.readSpace_le hle (show n < w.consumed.length + r.capacity by omega)
  have hdst := toNat_add_of_covers (hp.mapped hne) (Nat.le_of_lt hmore)
  -- both ends of the copy are mapped, so it is carried out
  have hsrc : x.core.Maps rp.toNat take.toNat := hram.maps_piece h.layout hrp (by omega)
  have hdm : x.core.Maps (p.dest + BitVec.ofNat 32 w.consumed.length).toNat take.toNat :=
    Core.maps_of_layout h.layout (Memory.covers_within (hp.mapped hne) (by omega) (by omega))
  have hendian : x'.core.endian = x.core.endian := by rw [hcore]; rfl
  obtain ⟨piece, hpiece⟩ : ∃ piece, piece = w.memory.slice w.rp take.toNat := ⟨_, rfl⟩
  have hlen : piece.length = take.toNat := by rw [hpiece, Contents.length_slice]
  have hmem : x'.core.contents =
      (w.memory.store (p.dest.toNat + w.consumed.length) piece).store r.rpAddr
        (x.core.endian.encode 4 next.toNat) := by
    rw [hcore, Core.contents_copy_storeWord hsrc hdm
      (hram.maps_rpAddr h.layout r.toNat_view_rpAddr), Ring.toNat_view_rpAddr, hdst, hrp, h.memory,
      ← h.rp_eq, ← hpiece]
  -- the destination does not overlap the ring
  have hout := hp.disjoint hne
  refine ⟨{ w with
    memory := (w.memory.store (p.dest.toNat + w.consumed.length) piece).store r.rpAddr
      (x.core.endian.encode 4 next.toNat)
    consumed := w.consumed ++ piece
    rp := next.toNat
    pending := 0 },
    ⟨⟨?_, h.knows.handed, h.knows.published, Nat.zero_le _⟩, rfl, hmem, ?_, ?_, ?_⟩, ?_⟩
  · rw [hpiece] at hlen
    rw [hendian, hpiece]
    refine hs.drain h.settled ?_ ?_ ?_ ?_
    · rw [hs.wp, h.knows.published, h.rp_eq]
      exact hbite
    · intro a ha ha'
      exact Contents.store_outside (by omega)
    · rw [h.rp_eq]
      exact hnext
    · rcases Ring.bite_boundary p.rate.toNat (data.length - w.consumed.length) (r.place n)
        (h.boundary hmore) with hb | hb
      · left
        rw [hnext, htake]
        exact hb
      · right
        omega
  · rw [hcore]
    exact (Core.layout_storeWord _ _ _).trans ((Core.layout_copy _ _ _ _).trans h.layout)
  · rw [hstatus, List.length_append, hlen]
  · -- the destination holds what it held, and the piece behind it
    show Contents.slice _ _ (w.consumed ++ piece).length = w.consumed ++ piece
    rw [List.length_append, Contents.slice_store_of_disjoint (by rw [Endian.length_encode]; omega),
      Contents.slice_add, Contents.slice_store_self, Contents.slice_store_of_disjoint (by omega),
      h.drained]
  · rw [List.length_append, hlen]

/-- A step of a consumer that has not drained everything yet. -/
theorem step (h : Drains r data p bps n w x) (hp : p.Suits r data.length) (hram : r.InRam)
    (hmore : w.consumed.length < data.length) :
    ∃ w', Drains r data p bps n w' x.step ∧ w.consumed.length ≤ w'.consumed.length ∧
      (w.consumed.length < n → n = data.length ∨ w.consumed.length + r.block ≤ n →
        w.consumed.length < w'.consumed.length) := by
  have hb := r.block_pos
  obtain ⟨hle, hroom, hwhole⟩ := h.window
  obtain ⟨hwp, hrp⟩ := h.pointers hram
  rcases hp.step_cases hmore hwp hrp with
    ⟨hwait, hstep⟩ | ⟨rp, take, next, hrp, htake, hpos, hnext, hstep⟩
  · -- the consumer waits, which it does not if it has something to do
    obtain ⟨hcore, hstatus⟩ := step_stay h.status (Program.step_consumer hstep)
    refine ⟨w, h.congr hcore (hstatus.trans h.status.symm), Nat.le_refl _, fun hlt hready => ?_⟩
    rcases hwait with heq | hzero
    · exact absurd heq.symm (Ring.place_ne hlt (by omega))
    · have := Ring.bite_pos (data.length - w.consumed.length) hp.rate hlt (by omega) (by omega)
        (by omega)
      omega
  · -- it takes a piece
    obtain ⟨hcore, hstatus⟩ := step_stay h.status (Program.step_consumer hstep)
    obtain ⟨w', hw', hlen⟩ := h.moved hp hram hrp htake hnext hmore hcore hstatus
    exact ⟨w', hw', by omega, fun _ _ => by omega⟩

/-- The step after the last byte ends the program. -/
theorem last (h : Drains r data p bps n w x) (hp : p.Suits r data.length) (hram : r.InRam)
    (hall : w.consumed.length = data.length) (hexit : p.exit ∈ bps) :
    x.step.core = x.core.setReg .pc p.exit ∧ x.step.status = .stopped bps := by
  have hwp := (h.pointers hram).1
  have hne : x.core.loadWord p.ring.wpAddr ≠ 0 := hp.ring ▸ Ring.ne_zero_of_place hwp
  have hdone : (p.after w.consumed.length).consumed = p.total := by
    refine BitVec.eq_of_toNat_eq ?_
    rw [hp.toNat_consumed (Nat.le_of_eq hall), hall, hp.total]
  have hstep : (p.after w.consumed.length).step x.core =
      (.exit p.exit, p.after w.consumed.length, x.core) := by
    have hring : (p.after w.consumed.length).ring = p.ring := rfl
    have habort : (p.after w.consumed.length).abortAfter = none := hp.steadfast
    have htotal : (p.after w.consumed.length).total = p.total := rfl
    rw [Consumer.step, hring, habort, htotal, hdone]
    simp only [hne, Option.any_none, Bool.false_eq_true, ↓reduceIte]
    rfl
  exact step_exit h.status (Program.step_consumer hstep) hexit

end Drains

end Sim

end DebugLink
