import DebugLink.Proofs.Chip.Launch
import DebugLink.Proofs.Runner.Guard

/-!
# Streaming to the flash loader

The loader works for one burst whenever the host looks at the chip, and in between the host writes
a piece.  `Live` is where the two of them stand: at work, at rest, or given up.

* `Live.look` is one look.  A loader that is at work makes ROOM each time: it does all of its
  burst, or it catches up with the host.
* `yields_feed` is the loop, against any host.  A host that is not `Calm` may be told to stop, and
  a breakpoint at the entry, or data that the loader does not count, may keep the loader from
  making room; `calm` says that there is none of that.
* `yields_write` is the whole write, from what the wait shows.
-/

namespace DebugLink

open Environment

/-! ## Pieces of whole halfwords -/

namespace Ring

variable {r : Ring} {c n len rest : Nat}

/-- Between whole halfwords there is room for whole halfwords. -/
theorem writeSpace_even (hb : r.block = 2) (he : r.capacity % 2 = 0) (hc : c % 2 = 0)
    (hn : n % 2 = 0) : r.writeSpace (r.place n) (r.place c) % 2 = 0 := by
  have hcm : c % r.capacity % 2 = 0 :=
    (Nat.mod_mod_of_dvd c (Nat.dvd_of_mod_eq_zero he)).trans hc
  have hnm : n % r.capacity % 2 = 0 :=
    (Nat.mod_mod_of_dvd n (Nat.dvd_of_mod_eq_zero he)).trans hn
  have hend := r.fifoEnd_eq
  have hcp : r.place c = r.fifoStart + c % r.capacity := rfl
  have hnp : r.place n = r.fifoStart + n % r.capacity := rfl
  rw [writeSpace]
  split
  · omega
  · split <;> omega

/-- The piece that the host chooses is of whole halfwords, or the last one. -/
theorem piece_even (hb : r.block = 2) (he : r.capacity % 2 = 0) (hc : c % 2 = 0) (hn : n % 2 = 0)
    (hlen : len = trimChunk (r.place c) (min (r.writeSpace (r.place n) (r.place c)) rest)) :
    len % 2 = 0 ∨ len = rest := by
  have hspace := writeSpace_even hb he hc hn
  have hcm : c % r.capacity % 2 = 0 :=
    (Nat.mod_mod_of_dvd c (Nat.dvd_of_mod_eq_zero he)).trans hc
  have hal := r.aligned
  have hst : r.fifoStart = r.start + 8 := rfl
  have hplace : r.place c % 2 = 0 := by
    rw [place]
    omega
  rw [trimChunk] at hlen
  split at hlen <;> omega

end Ring

/-- What is relied on of the host, in states `N`: if it is to be calm, it is never shutting
    down. -/
structure Host.Calm {η : Type} (h : Host η) (calm : Prop) (N : η → Prop) : Prop where
  keepAlive : ∀ {y}, N y → N (h.perform .keepAlive y).2
  shutdownPending : ∀ {y}, N y → N (h.perform .shutdownPending y).2
  undisturbed : calm → ∀ {y}, N y → (h.perform .shutdownPending y).1 = false
  sleep : ¬ calm → ∀ {y ms}, N y → N (h.perform (.sleep ms) y).2

namespace Chip.Job

variable {η : Type} {h : Host η} {calm : Prop} {N : η → Prop} {j : Job} {bps : List Word}
  {n : Nat} {x : Chip} {y : η}

/-- The engine that streams to the loader. -/
def engine (j : Job) : Engine where
  ring := j.ring

/-! ## Where the two of them stand -/

/-- The loader is on the chip, and may have left the ring in order. -/
def Alive (j : Job) (bps : List Word) (n : Nat) (w : Intake) (x : Chip) : Prop :=
  j.Working bps n w x ∨ j.Rests bps n w x

/-- The loader is on the chip, or has given up. -/
def Live (j : Job) (bps : List Word) (n : Nat) (x : Chip) : Prop :=
  (∃ w, j.Alive bps n w x) ∨ j.Aborted bps x

/-- Nothing keeps the loader from making room for all of the data. -/
structure Firm (j : Job) (bps : List Word) : Prop where
  free : j.code ∉ bps
  counted : j.total = j.data.length / 2

theorem Alive.holds {w : Intake} (hx : j.Alive bps n w x) : j.Holds n w x.store :=
  hx.elim (·.holds) (·.holds)

theorem Aborted.looked (hx : j.Aborted bps x) : x.looked = x :=
  hx.exited.looked

/-- One look at the chip. -/
theorem Live.look (hx : j.Live bps n x) (hexit : j.exit ∈ bps) :
    (∃ w, j.Alive bps n w x.looked ∧ (j.Firm bps → n < j.data.length →
      n + j.ring.block < w.consumed.length + j.ring.capacity)) ∨ j.Aborted bps x.looked := by
  have hblock := j.ring.block_pos
  have htwo := j.ring.two_blocks_le
  rcases hx with ⟨w, hx | hx⟩ | hx
  · have hwindow := hx.holds.knows.window hx.holds.settled
    rcases hx.look hexit with ⟨w', hx', hgrow, hworks⟩ | ⟨w', hx', -⟩ | ⟨hx', -⟩
    · refine .inl ⟨w', .inl hx', fun hfirm _ => ?_⟩
      rcases hworks with hall | ⟨hall, -⟩ | hstuck
      · -- a burst makes room for more than a block
        have hburst : burstLength = 64 := rfl
        omega
      · omega
      · exact absurd hstuck hfirm.free
    · refine .inl ⟨w', .inr hx', fun hfirm hmore => ?_⟩
      have hall := hx'.all
      have hcounted := hfirm.counted
      omega
    · exact .inr hx'
  · -- the loader is through with the data, so nothing is left to hand over
    rw [hx.exited.looked]
    refine .inl ⟨w, .inr hx, fun hfirm hmore => ?_⟩
    have hall := hx.all
    have hcounted := hfirm.counted
    omega
  · exact .inr (hx.looked.symm ▸ hx)

/-- What the host does between two looks. -/
theorem Alive.handOver {w : Intake} {len : Nat} {a wpPlace : Word} (hx : j.Alive bps n w x)
    (hp : j.Piece w n len) (ha : a.toNat = j.ring.place n) (hwp : wpPlace.toNat = j.ring.wpAddr) :
    ∃ w', j.Alive bps (n + len) w' (j.handed x a wpPlace n len) ∧ w'.consumed = w.consumed := by
  rcases hx with hx | hx
  · obtain ⟨w', hw', hsame⟩ := hx.handOver hp ha hwp
    exact ⟨w', .inl hw', hsame⟩
  · obtain ⟨w', hw', hsame⟩ := hx.handOver hp ha hwp
    exact ⟨w', .inr hw', hsame⟩

/-! ## The parts of a round -/

/-- The loader's pointer is the word that it left there. -/
theorem yields_partnerPointer {flow : Flow} {a : Word} {p : Progress}
    {Q : Except Error Nat × Progress → Chip × η → Prop} (hl : x.looked.store.Laid)
    (ha : a.toNat = j.ring.rpAddr)
    (hn : Q (.ok (x.looked.store.inRam.word .little j.ring.rpAddr), p) (x.looked, y)) :
    Yields h ((Engine.partnerPointer (A := cortexM) flow a).run.run p) Q (x, y) := by
  obtain ⟨bytes, hload, hval⟩ := Store.load?_ram (s := x.looked.store) (covers_rpAddr (j := j) hl)
  rw [← ha] at hload
  refine Engine.plays_partnerPointer (play_read hload) ?_
  rw [Contents.word, ← hval] at hn
  exact hn

theorem yields_giveWay (hh : h.Calm calm N) (hN : N y) {p : Progress}
    {Q : Except Error Unit × Progress → Chip × η → Prop}
    (ok : ∀ y, N y → Q (.ok (), p) (x, y))
    (stop : ¬ calm → ∀ y, N y → Q (.error .interrupted, p) (x, y)) :
    Yields h ((Engine.giveWay : StreamM cortexM Unit).run.run p) Q (x, y) := by
  have hkept := hh.keepAlive hN
  have hlater := hh.shutdownPending hkept
  refine wp_played (wp_played ?_)
  by_cases hpending : (h.perform .shutdownPending (h.perform .keepAlive y).2).1 = true
  · have hquits : ¬ calm := fun hcalm => by
      rw [hh.undisturbed hcalm hkept] at hpending
      cases hpending
    simp only [play, hpending]
    exact stop hquits _ hlater
  · rw [Bool.not_eq_true] at hpending
    simp only [play, hpending]
    exact ok _ hlater

/-! ## The loop -/

/-- How the loop ends: with everything handed over, or on the loader's word, unless the host or
    the loader was kept from going on. -/
def Fed (j : Job) (bps : List Word) (calm : Prop) (N : η → Prop)
    (res : Except Error Unit × Progress) (v : Chip × η) : Prop :=
  N v.2 ∧ (res.1 = .ok () ∧ res.2.stats.bytes = j.data.length ∧ j.Live bps j.data.length v.1 ∨
    res.1 = .error .operationFailed ∧ j.Aborted bps v.1 ∨
    ¬ calm ∧ ∃ e, res.1 = .error e)

variable {wpPlace rpPlace : Word}

/-- A piece and the pointer behind it, with whatever comes next. -/
theorem yields_handOver (hh : h.Calm calm N) (hwp : wpPlace.toNat = j.ring.wpAddr) {p : Progress}
    {w : Intake} {len : Nat} {next : StreamM cortexM Unit}
    {Q : Except Error Unit × Progress → Chip × η → Prop} (hx : j.Alive bps p.stats.bytes w x)
    (hN : N y) (hpos : 0 < len) (hp : j.Piece w p.stats.bytes len)
    (stop : ¬ calm → ∀ p' x' y', N y' → Q (.error .interrupted, p') (x', y'))
    (hnext : ∀ (p' : Progress) (w' : Intake) (x' : Chip) (y' : η),
      p'.stats.bytes = p.stats.bytes + len → j.Alive bps p'.stats.bytes w' x' →
      w'.consumed = w.consumed → N y' → Yields h (next.run.run p') Q (x', y')) :
    Yields h ((do
        writeBuffer (← Engine.address (A := cortexM) (j.ring.place p.stats.bytes))
          ((j.data.drop p.stats.bytes).take len)
        Engine.countChunk len (j.ring.advance (j.ring.place p.stats.bytes) len).2
        writeWord (A := cortexM) .full wpPlace
          (j.ring.advance (j.ring.place p.stats.bytes) len).1
        Engine.giveWay
        next : StreamM cortexM Unit).run.run p) Q (x, y) := by
  have hreach := j.ring.fifoEnd_lt
  have hend := hp.straight
  have hlen := hp.length_eq
  have hlow := j.ring.fifoStart_le_place p.stats.bytes
  have hst := j.ring.fifoStart_eq
  have hstart : j.ring.wpAddr = j.ring.start := rfl
  have hne : (j.data.drop p.stats.bytes).take len ≠ [] := List.ne_nil_of_length_pos (by omega)
  rw [Ring.advance_place hend]
  refine wp_seq (wp_lift (Engine.plays_address (j.ring.place_lt_word _) fun a ha => ?_))
  have ha : a.toNat = j.ring.place p.stats.bytes := ha
  -- the piece and the pointer lie in the memory, so neither is refused
  have hpiece : x.store.ram.Covers a.toNat ((j.data.drop p.stats.bytes).take len).length :=
    covers_ring (j := j) hx.holds.laid (by omega) (by omega)
  rw [after_ok]
  refine wp_seq (wp_lift (plays_writeBuffer hne (.inr ?_) (play_write hpiece) ?_))
  · show a.toNat + _ ≤ (BitVec.allOnes 32).toNat
    rw [BitVec.toNat_allOnes]
    omega
  rw [after_ok]
  refine wp_modify (wp_seq (wp_lift (plays_writeWord (play_write ?_) ?_)))
  · rw [Endian.length_encode, hwp]
    exact covers_wpAddr (hx.holds.laid.write _ _)
  rw [after_ok]
  refine wp_seq (yields_giveWay hh hN (fun y' hy' => ?_) fun hquits y' hy' => ?_)
  · obtain ⟨w', hx', hsame⟩ := hx.handOver hp ha hwp
    exact hnext _ w' _ y' rfl hx' hsame hy'
  · exact stop hquits _ _ _ hy'

/-- The loop looks at the loader's pointer, which is in order. -/
theorem yields_pointer {p : Progress} {w : Intake} {rest : List UInt8} {own : Nat}
    {next : Nat → StreamM cortexM Unit} {Q : Except Error Unit × Progress → Chip × η → Prop}
    (hrp : rpPlace.toNat = j.ring.rpAddr) (hx : j.Alive bps n w x.looked)
    (hnext : Yields h ((next (j.ring.place w.consumed.length)).run.run p) Q (x.looked, y)) :
    Yields h ((do
        let rp ← Engine.partnerPointer (A := cortexM) .write rpPlace
        note (.progress (← get).stats.bytes rest.length own rp)
        j.engine.checkPointer .write rp
        next rp : StreamM cortexM Unit).run.run p) Q (x, y) := by
  have hx' := hx.holds
  have hlow := j.ring.fifoStart_le_place w.consumed.length
  have hst := j.ring.fifoStart_eq
  refine wp_seq (yields_partnerPointer (j := j) hx'.laid hrp ?_)
  rw [hx'.memory, (hx'.knows.words hx'.settled).2, after_ok]
  refine wp_get (wp_seq (plays_note ?_))
  refine wp_seq (Engine.plays_checkPointer (j.valid_place hx'.whole) (by omega) ?_)
  exact hnext

/-- A round that finds room hands over a piece. -/
theorem yields_round (hh : h.Calm calm N) (hwp : wpPlace.toNat = j.ring.wpAddr)
    (hrp : rpPlace.toNat = j.ring.rpAddr) {p : Progress} {w : Intake} {stalls : Nat}
    {Q : Except Error Unit × Progress → Chip × η → Prop} (hmore : p.stats.bytes < j.data.length)
    (hx : j.Alive bps p.stats.bytes w x.looked) (hN : N y)
    (hs : j.ring.writeSpace (j.ring.place p.stats.bytes) (j.ring.place w.consumed.length) ≠ 0)
    (stop : ¬ calm → ∀ p' x' y', N y' → Q (.error .interrupted, p') (x', y'))
    (hnext : ∀ (len : Nat) (p' : Progress) (w' : Intake) (x' : Chip) (y' : η),
      len = trimChunk (j.ring.place w.consumed.length) (min (j.ring.writeSpace
        (j.ring.place p.stats.bytes) (j.ring.place w.consumed.length))
        (j.data.length - p.stats.bytes)) → j.Piece w p.stats.bytes len →
      p'.stats.bytes = p.stats.bytes + len → j.Alive bps p'.stats.bytes w' x' →
      w'.consumed = w.consumed → N y' →
      Yields h ((j.engine.feed (A := cortexM) wpPlace rpPlace (j.ring.place p'.stats.bytes)
        (j.data.drop p'.stats.bytes) 0).run.run p') Q (x', y')) :
    Yields h ((j.engine.feed (A := cortexM) wpPlace rpPlace (j.ring.place p.stats.bytes)
      (j.data.drop p.stats.bytes) stalls).run.run p) Q (x, y) := by
  have hx' := hx.holds
  obtain ⟨hbehind, hwindow, -⟩ := hx'.knows.window hx'.settled
  have heven : p.stats.bytes % 2 = 0 := hx'.parity.resolve_right (Nat.ne_of_lt hmore)
  have hlong : (j.data.drop p.stats.bytes).length = j.data.length - p.stats.bytes :=
    List.length_drop
  have hne : j.data.drop p.stats.bytes ≠ [] := List.ne_nil_of_length_pos (by omega)
  rw [Engine.feed, dif_neg hne]
  refine yields_pointer hrp hx ?_
  rw [dif_neg (show ¬ j.engine.ring.writeSpace _ _ = 0 from hs)]
  obtain ⟨len, hlen⟩ : ∃ len, len = trimChunk (j.ring.place w.consumed.length)
      (min (j.engine.ring.writeSpace (j.ring.place p.stats.bytes)
        (j.ring.place w.consumed.length)) (j.data.drop p.stats.bytes).length) := ⟨_, rfl⟩
  simp only [← hlen]
  have hpos : 0 < len := by
    have hs : 0 < j.engine.ring.writeSpace (j.ring.place p.stats.bytes)
      (j.ring.place w.consumed.length) := Nat.pos_of_ne_zero hs
    rw [hlen]
    exact trimChunk_pos (by omega)
  obtain ⟨hfit, hend, hshort⟩ :=
    Engine.piece_fits hbehind hwindow (j.valid_place hx'.whole) hlen
  -- the loader takes halfwords: a piece of odd length would leave it half a one
  have heven' := Ring.piece_even j.block j.capacity_even hx'.whole heven hlen
  have hp : j.Piece w p.stats.bytes len := ⟨hfit, hend, by omega, by omega⟩
  refine yields_handOver hh hwp hx hN hpos hp stop fun p' w' x' y' hp' hx'' hsame hN' => ?_
  have hown : (j.engine.ring.advance (j.ring.place p.stats.bytes) len).1 =
      j.ring.place p'.stats.bytes := by
    rw [hp']
    exact Ring.advance_place hend
  rw [hown, List.drop_drop, ← hp']
  exact hnext len p' w' x' y' (hlong ▸ hlen) hp hp' hx'' hsame hN'

/-- The loop, against any host. -/
theorem yields_feed (hh : h.Calm calm N) (hfirm : calm → j.Firm bps) (hexit : j.exit ∈ bps)
    (hwp : wpPlace.toNat = j.ring.wpAddr) (hrp : rpPlace.toNat = j.ring.rpAddr)
    (own : Nat) (rest : List UInt8) (stalls : Nat) :
    ∀ (p : Progress) (x : Chip) (y : η), j.Live bps p.stats.bytes x → N y →
      p.stats.bytes ≤ j.data.length → own = j.ring.place p.stats.bytes →
      rest = j.data.drop p.stats.bytes →
      Yields h ((j.engine.feed (A := cortexM) wpPlace rpPlace own rest stalls).run.run p)
        (j.Fed bps calm N) (x, y) := by
  -- by the recursion of the loop, with a chip on which the loader is alive or has given up
  induction own, rest, stalls using Engine.feed.induct j.engine with
  | case1 own stalls =>
      intro p x y hx hN hle _ hrest
      have hall : p.stats.bytes = j.data.length :=
        Nat.le_antisymm hle (List.drop_eq_nil_iff.mp hrest.symm)
      rw [Engine.feed, dif_pos rfl]
      exact ⟨hN, .inl ⟨rfl, hall, hall ▸ hx⟩⟩
  | case2 own rest stalls hne ihStall ihPiece =>
      rintro p x y hx hN hle rfl rfl
      have hmore : p.stats.bytes < j.data.length :=
        Nat.lt_of_not_le fun hle => hne (List.drop_of_length_le hle)
      rcases hx.look hexit with ⟨w, hx', hroom⟩ | hx'
      · by_cases hs : j.engine.ring.writeSpace (j.ring.place p.stats.bytes)
          (j.ring.place w.consumed.length) = 0
        · -- no room, which is not so unless the loader was kept from making some
          have hquits : ¬ calm := fun hcalm => by
            obtain ⟨hbehind, -, -⟩ := hx'.holds.knows.window hx'.holds.settled
            have hpos := Ring.writeSpace_pos hbehind (hroom (hfirm hcalm) hmore)
            exact absurd hs (Nat.ne_of_gt hpos)
          rw [Engine.feed, dif_neg hne]
          refine yields_pointer hrp hx' ?_
          rw [dif_pos hs]
          refine wp_seq (wp_played (yields_giveWay hh (hh.sleep hquits hN) (fun y' hy' => ?_)
            fun _ y' hy' => ⟨hy', .inr (.inr ⟨hquits, _, rfl⟩)⟩))
          rw [after_ok]
          by_cases ht : stalls < j.engine.config.maxStalls
          · rw [dif_pos ht]
            exact wp_modify (ihStall (j.ring.place w.consumed.length) ht _ _ _ (.inl ⟨w, hx'⟩) hy'
              hle rfl rfl)
          · rw [dif_neg ht]
            exact wp_seq (plays_note ⟨hy', .inr (.inr ⟨hquits, _, rfl⟩)⟩)
        · refine yields_round hh hwp hrp hmore hx' hN hs (fun hquits p' x' y' hy' => ?_) ?_
          · exact ⟨hy', .inr (.inr ⟨hquits, _, rfl⟩)⟩
          · intro len p' w' x'' y' hlen hp hp' hx'' _ hN'
            have hthere := hp.there
            have hown : (j.engine.ring.advance (j.ring.place p.stats.bytes) len).1 =
                j.ring.place p'.stats.bytes := by
              rw [hp']
              exact Ring.advance_place hp.straight
            have hk := ihPiece _ hs
            rw [← List.length_drop] at hlen
            simp only [show j.engine.ring = j.ring from rfl, ← hlen] at hk hown
            rw [hown, List.drop_drop, ← hp'] at hk
            exact hk p' x'' y' (.inl ⟨w', hx''⟩) hN' (by omega) rfl rfl
      · -- the loader has given up
        rw [Engine.feed, dif_neg hne]
        refine wp_seq (yields_partnerPointer (j := j) hx'.failed.laid hrp ?_)
        rw [hx'.failed.zero, after_ok]
        refine wp_get (wp_seq (plays_note ?_))
        refine wp_seq (Engine.plays_checkPointer_zero ?_)
        exact ⟨hN, .inr (.inl ⟨rfl, hx'⟩)⟩

/-! ## Before the loop -/

/-- The host may empty the ring; the loader's code lies outside of it. -/
theorem Poised.wrote {a : Word} {data : List UInt8} (hx : j.Poised x)
    (ha : j.ring.start ≤ a.toNat) (hk : a.toNat + data.length ≤ j.ring.fifoEnd) :
    j.Poised (x.wrote a data) where
  state := hx.state
  laid := hx.laid.write _ _
  flash := (Store.write_flash _ _ _).trans hx.flash
  stub := by
    have hapart := j.apart
    have hc := covers_ring (j := j) hx.laid ha hk
    show (x.store.write a.toNat data).ram.load? _ _ = _
    rw [Store.write_eq hc]
    exact (Region.load?_store_of_disjoint hc (by omega)).trans hx.stub

/-- The loader stands at the start of a ring that was emptied. -/
theorem Poised.begun (hx : j.Poised x)
    (hwp : x.store.inRam.word .little j.ring.wpAddr = j.ring.fifoStart)
    (hrp : x.store.inRam.word .little j.ring.rpAddr = j.ring.fifoStart) :
    j.Working (x.control.breakpoints ++ [j.exit]) 0
      { memory := x.store.inRam, rp := j.ring.fifoStart } (j.launched x) where
  holds :=
    { knows := ⟨.fresh ⟨hwp, hrp, rfl, rfl, rfl, rfl, rfl⟩, rfl, rfl, Nat.zero_le _⟩
      settled := rfl
      memory := rfl
      laid := hx.laid
      flash := hx.flash
      whole := rfl
      within := Nat.zero_le _
      parity := .inl rfl }
  state := .inl rfl
  pc := RegisterFile.get_set_self _ _ _
  breakpoints := rfl
  loader := hx.found_launched

/-- The ring is emptied, and the loader is started. -/
theorem yields_begin {Q : Except Error Unit × Held cortexM → Chip × η → Prop} (hx : j.Poised x)
    (hn : ∀ r w x', j.Launched r → j.Working (x.control.breakpoints ++ [j.exit]) 0 w x' →
      Q (.ok (), ⟨r, true⟩) (x', y)) :
    Yields h ((j.engine.begin (A := cortexM) .write).run.run ⟨j.runner, false⟩) Q (x, y) := by
  have hrp := j.ring.rpAddr_eq
  have hst := j.ring.fifoStart_eq
  have hlt := j.ring.fifoStart_lt
  have hend := j.ring.fifoEnd_lt
  have hstart : j.ring.wpAddr = j.ring.start := rfl
  have hlen : (Endian.little.encode 4 j.ring.fifoStart).length = 4 := Endian.length_encode _ _ _
  refine wp_get ?_
  refine wp_seq (wp_lift (yields_requireHalted hx.state ?_))
  -- the first pointer is stored, then the second, then the loader is let go
  refine wp_seq (wp_lift (Engine.plays_putPointer (show j.ring.wpAddr < 2 ^ 32 by omega)
    fun a ha => ?_))
  have ha : a.toNat = j.ring.wpAddr := ha
  have hc : x.store.ram.Covers a.toNat (Endian.little.encode 4 j.ring.fifoStart).length := by
    rw [hlen, ha]
    exact covers_wpAddr hx.laid
  refine ⟨_, play_write hc, ?_⟩
  have hx₁ : j.Poised (x.wrote a (Endian.little.encode 4 j.ring.fifoStart)) :=
    hx.wrote (by omega) (by omega)
  refine wp_seq (wp_lift (Engine.plays_putPointer (show j.ring.rpAddr < 2 ^ 32 by omega)
    fun b hb => ?_))
  have hb : b.toNat = j.ring.rpAddr := hb
  have hc₁ : (x.wrote a (Endian.little.encode 4 j.ring.fifoStart)).store.ram.Covers b.toNat
      (Endian.little.encode 4 j.ring.fifoStart).length := by
    rw [hlen, hb]
    exact covers_rpAddr hx₁.laid
  refine ⟨_, play_write hc₁, ?_⟩
  have hx₂ : j.Poised ((x.wrote a (Endian.little.encode 4 j.ring.fifoStart)).wrote b
    (Endian.little.encode 4 j.ring.fifoStart)) := hx₁.wrote (by omega) (by omega)
  have hmem := (inRam_wrote hc₁).trans (congrArg (Contents.store · _ _) (inRam_wrote hc))
  rw [ha, hb] at hmem
  refine wp_seq (wp_outcome (yields_start hx₂ fun r hr => ?_))
  refine hn r _ _ hr (hx₂.begun ?_ ?_)
  · rw [hmem, Contents.word_store_of_disjoint _ (by omega)]
    exact Contents.word_store_self _ _ _ (by omega)
  · rw [hmem]
    exact Contents.word_store_self _ _ _ (by omega)

/-! ## Behind the loop -/

/-- How the watch ends: at the exit point, unless something kept the loader from getting there. -/
def Ended (j : Job) (bps : List Word) (calm : Prop) (a : Runner.Watch) (v : Chip × η) : Prop :=
  a = .halted ∧ ((∃ w, j.Rests bps j.data.length w v.1) ∨ j.Aborted bps v.1) ∨
    ¬ calm ∧ (a = .halted → v.1.control.regs.get .pc ≠ j.exit)

/-- Everything that the loader counts is in flash, and the core is halted. -/
structure Programmed (j : Job) (x : Chip) : Prop where
  laid : x.store.Laid
  state : x.control.state = .halted
  flash : x.store.flash = j.before.flash.store j.dest.toNat (j.data.take (2 * j.total))
  fits : j.total ≤ j.room
  drained : j.data.length + j.ring.block ≤ 2 * j.total + j.ring.capacity

/-- How the whole write ends. -/
def WriteEnds (j : Job) (calm : Prop) (res : Outcome × Held cortexM) (v : Chip × η) : Prop :=
  (∃ stats, res.1 = .finished stats ∧ stats.bytes = j.data.length ∧ res.2.busy = false ∧
    Collected 0 res.2.runner ∧ j.Programmed v.1) ∨
  (∃ offset, res.1 = .failed { offset, error := .operationFailed } ∧ res.2.busy = false ∧
    Collected programmingError res.2.runner ∧ j.Failed v.1.store) ∨
  ¬ calm ∧ ∀ stats, res.1 ≠ .finished stats

theorem Rests.programmed {w : Intake} (hx : j.Rests bps j.data.length w x) : j.Programmed x where
  laid := hx.holds.laid
  state := hx.exited.state
  flash := by rw [hx.holds.flash, ← hx.all, ← hx.holds.knows.sound.consumed]
  fits := by
    have hwithin := hx.holds.within
    have hall := hx.all
    omega
  drained := by
    have hwindow := (hx.holds.knows.window hx.holds.settled).2.1
    rwa [hx.all] at hwindow

/-- The last look at the loader's pointer. -/
theorem yields_lastLook {Q : Except Error Nat → Chip × η → Prop} (hl : x.store.Laid)
    (hs : x.control.state = .halted)
    (hn : Q (.ok (x.store.inRam.word .little j.ring.rpAddr)) (x, y)) :
    Yields h (do readWord .full (← Engine.address j.ring.rpAddr) : Link cortexM Nat).run Q
      (x, y) := by
  have hrp := j.ring.rpAddr_eq
  have hst := j.ring.fifoStart_eq
  have hlt := j.ring.fifoStart_lt
  have hend := j.ring.fifoEnd_lt
  have hsame : x.looked = x := looked_idle (by rw [hs]; decide)
  obtain ⟨bytes, hload, hval⟩ := Store.load?_ram (s := x.store) (covers_rpAddr (j := j) hl)
  refine wp_andThen (Engine.plays_address (show j.ring.rpAddr < 2 ^ 32 by omega) fun a ha => ?_)
  have ha : a.toNat = j.ring.rpAddr := ha
  rw [← ha] at hload
  refine plays_readWord (play_read (hsame.symm ▸ hload)) ?_
  rw [hsame]
  rw [Contents.word, ← hval] at hn
  exact hn

/-- A loop that failed does not make a transfer a success, whatever comes after it. -/
theorem settle_failed (e : Engine) (patience partner : Nat) (err : Error) (stats : Stats)
    (r : Held cortexM) : ((e.settle .write patience partner (.error err) stats).run r).Within
      (fun _ => True) fun res => ∀ s, res.1 ≠ .finished s := by
  refine Dialogue.Within.bind ((Dialogue.only_any _).mono ?_)
  rintro ⟨waited, r'⟩ -
  match waited with
  | .error waitError => exact ⟨trivial, fun _ => nofun⟩
  | .ok .undecided => exact nofun
  | .ok .completed => exact nofun

theorem conclude_failed (e : Engine) (patience own partner : Nat) (err : Error) (stats : Stats)
    (r : Held cortexM) :
    ((e.conclude .write patience own partner (.error err) stats).run r).Within (fun _ => True)
      fun res => ∀ s, res.1 ≠ .finished s := by
  rw [Engine.conclude_failed]
  refine Dialogue.Within.bind ((Dialogue.only_any _).mono ?_)
  rintro ⟨_ | _, r'⟩ -
  · exact ⟨trivial, fun _ => settle_failed e patience partner err stats r'⟩
  · exact settle_failed e patience partner err stats r'

/-- A look at a loader that has left ends the watch. -/
theorem yields_watch_exited {status : Word} {deadline interval patience : Nat}
    {Q : Runner.Watch → Chip × η → Prop} (hx : j.Exited bps status x) (hn : Q .halted (x, y)) :
    Yields h (Runner.watch (A := cortexM) deadline interval (patience + 1)) Q (x, y) := by
  rw [Runner.watch]
  refine plays_ask play_poll ?_
  rw [hx.looked, hx.state]
  exact hn

/-- The watch, against any host. -/
theorem yields_watch_any (hexit : j.exit ∈ bps) {deadline interval : Nat} (patience : Nat) :
    ∀ (x : Chip) (y : η), j.Live bps j.data.length x →
      Yields h (Runner.watch (A := cortexM) deadline interval patience) (j.Ended bps False)
        (x, y) := by
  -- on the polls that are still awaited: each of them may find the loader at its exit
  induction patience with
  | zero => exact fun x y _ => .inr ⟨id, nofun⟩
  | succ patience ih =>
      intro x y hx
      rw [Runner.watch]
      refine plays_ask play_poll ?_
      rcases hx.look hexit with ⟨w, hx' | hx', -⟩ | hx'
      · rcases hx'.state with hstate | ⟨hstate, -⟩
        · rw [hstate]
          refine wp_played ?_
          show Yields h (if deadline ≤ (h.perform .now y).1.toNat then _ else _ :
            Dialogue cortexM Runner.Watch) _ _
          split
          · exact .inr ⟨id, nofun⟩
          · refine wp_played (wp_played (wp_played ?_))
            show Yields h (if _ = true then _ else _ : Dialogue cortexM Runner.Watch) _ _
            split
            · exact .inr ⟨id, nofun⟩
            · exact ih _ _ (.inl ⟨w, .inl hx'⟩)
        · rw [hstate]
          refine .inr ⟨id, fun _ => ?_⟩
          rw [hx'.pc]
          exact j.code_ne_exit
      · rw [hx'.exited.state]
        exact .inl ⟨rfl, .inl ⟨w, hx'⟩⟩
      · rw [hx'.exited.state]
        exact .inl ⟨rfl, .inr hx'⟩

/-- The watch of the final wait. -/
abbrev FinalWatch (j : Job) (bps : List Word) (calm : Prop) (h : Host η) (patience : Nat)
    (x : Chip) (y : η) : Prop :=
  Yields h (Runner.watch (A := cortexM)
    (min ((h.perform .now y).1.toNat + 10000) 0xffffffffffffffff) 1 patience)
    (j.Ended bps calm) (x, (h.perform .now y).2)

theorem Programmed.congr {x' : Chip} (hx : j.Programmed x) (hx' : Alike x x') :
    j.Programmed x' where
  laid := hx'.store ▸ hx.laid
  state := hx'.state.trans hx.state
  flash := (congrArg Store.flash hx'.store).trans hx.flash
  fits := hx.fits
  drained := hx.drained

/-- What follows a loop that handed over everything. -/
theorem yields_settle_moved {r : Held cortexM} {patience : Nat} {stats : Stats}
    (hr : j.Launched r.runner) (hbytes : stats.bytes = j.data.length)
    (hwatch : j.FinalWatch bps calm h patience x y) :
    Yields h ((j.engine.settle (A := cortexM) .write patience j.ring.rpAddr (.ok ()) stats).run r)
      (j.WriteEnds calm) (x, y) := by
  refine wp_then (yields_wait bps hr (wp_mono hwatch ?_))
  rintro a ⟨x₁, y₁⟩ (⟨rfl, ⟨w, hx₁⟩ | hx₁⟩ | ⟨hquits, hpc⟩)
  · refine .inl ⟨0, rfl, hx₁.exited, fun r₂ x₂ hr₂ hx₂ => ?_⟩
    refine wp_then (wp_liftOnly (yields_lastLook (j := j) (hx₂.store ▸ hx₁.holds.laid)
      (hx₂.state.trans hx₁.exited.state) ?_))
    have hword : x₂.store.inRam.word .little j.ring.rpAddr = j.ring.place w.consumed.length := by
      rw [hx₂.store, hx₁.holds.memory]
      exact (hx₁.holds.knows.words hx₁.holds.settled).2
    -- a read pointer in the fifo is not zero, which would mean an abort
    obtain ⟨ptr, hptr⟩ : ∃ ptr, j.ring.place w.consumed.length = ptr + 1 := by
      have hlow := j.ring.fifoStart_le_place w.consumed.length
      have hst := j.ring.fifoStart_eq
      exact ⟨_, (Nat.sub_add_cancel (show 1 ≤ j.ring.place w.consumed.length by omega)).symm⟩
    rw [hword, hptr]
    exact .inl ⟨stats, rfl, hbytes, rfl, hr₂, hx₁.programmed.congr hx₂⟩
  · refine .inl ⟨programmingError, rfl, hx₁.exited, fun r₂ x₂ hr₂ hx₂ => ?_⟩
    refine wp_then (wp_liftOnly (yields_lastLook (j := j) (hx₂.store ▸ hx₁.failed.laid)
      (hx₂.state.trans hx₁.exited.state) ?_))
    have hword : x₂.store.inRam.word .little j.ring.rpAddr = 0 := by
      rw [hx₂.store]
      exact hx₁.failed.zero
    rw [hword]
    exact plays_note (.inr (.inl ⟨stats.bytes, rfl, rfl, hr₂, hx₂.store ▸ hx₁.failed⟩))
  · refine .inr ⟨hpc, fun res r₂ x₂ hres => ?_⟩
    -- the wait was not the end of it, and that may only be if someone quits
    match res, hres with
    | .error waitError, _ => exact plays_note (.inr (.inr ⟨hquits, nofun⟩))
    | .ok .undecided, _ => exact .inr (.inr ⟨hquits, nofun⟩)

/-- A loader that is not seen at its exit point in time does not make a success. -/
theorem yields_settle_astray {r : Held cortexM} {patience : Nat} {stats : Stats}
    (hr : j.Launched r.runner)
    (hwatch : Yields h (Runner.watch (A := cortexM)
      (min ((h.perform .now y).1.toNat + 10000) 0xffffffffffffffff) 1 patience)
      (fun a v => a = .halted → v.1.control.regs.get .pc ≠ j.exit) (x, (h.perform .now y).2)) :
    Yields h ((j.engine.settle (A := cortexM) .write patience j.ring.rpAddr (.ok ()) stats).run r)
      (fun res _ => ∀ s, res.1 ≠ .finished s) (x, y) := by
  refine wp_then (yields_wait [] hr (wp_mono hwatch ?_))
  rintro a ⟨x₁, y₁⟩ hpc
  refine .inr ⟨hpc, fun res r₂ x₂ hres => ?_⟩
  match res, hres with
  | .error waitError, _ => exact plays_note nofun
  | .ok .undecided, _ => exact nofun

/-- What follows a loop that the loader put an end to. -/
theorem yields_settle_aborted {r : Held cortexM} {patience : Nat} {stats : Stats}
    (hr : j.Launched r.runner) (hx : j.Aborted bps x) :
    Yields h ((j.engine.settle (A := cortexM) .write (patience + 1) j.ring.rpAddr
      (.error .operationFailed) stats).run r) (j.WriteEnds calm) (x, y) := by
  refine wp_then (yields_wait bps hr (yields_watch_exited hx.exited ?_))
  refine .inl ⟨programmingError, rfl, hx.exited, fun r₂ x₂ hr₂ hx₂ => ?_⟩
  exact .inr (.inl ⟨stats.bytes, rfl, rfl, hr₂, hx₂.store ▸ hx.failed⟩)

/-- The host's own word does not undo what the loader did. -/
theorem Aborted.told {a : Word} (hx : j.Aborted bps x) (ha : a.toNat = j.ring.wpAddr) :
    j.Aborted bps (x.wrote a (Endian.little.encode 4 0)) where
  failed :=
    { laid := hx.failed.laid.write _ _
      zero := by
        have hrp := j.ring.rpAddr_eq
        have hlen : (Endian.little.encode 4 0).length = 4 := rfl
        have hc : x.store.ram.Covers a.toNat (Endian.little.encode 4 0).length := by
          rw [hlen, ha]
          exact covers_wpAddr hx.failed.laid
        rw [inRam_wrote hc, Contents.word_store_of_disjoint _ (by omega)]
        exact hx.failed.zero
      flash := (Store.write_flash _ _ _).trans hx.failed.flash
      short := hx.failed.short }
  exited := ⟨hx.exited.state, hx.exited.pc, hx.exited.status, hx.exited.breakpoints⟩

/-! ## The whole write -/

theorem yields_write (hh : h.Calm calm N)
    (hfirm : calm → j.Firm (x.control.breakpoints ++ [j.exit])) {patience : Nat}
    (hwatch : ∀ x' y', j.Live (x.control.breakpoints ++ [j.exit]) j.data.length x' → N y' →
      j.FinalWatch (x.control.breakpoints ++ [j.exit]) calm h (patience + 1) x' y')
    (hx : j.Poised x) (hN : N y) :
    Yields h ((j.engine.write (A := cortexM) (patience + 1) j.data).run ⟨j.runner, false⟩)
      (j.WriteEnds calm) (x, y) := by
  have hrp := j.ring.rpAddr_eq
  have hst := j.ring.fifoStart_eq
  have hlt := j.ring.fifoStart_lt
  have hend := j.ring.fifoEnd_lt
  refine wp_then (yields_begin hx fun r w x₁ hr hx₁ => ?_)
  have hexit : j.exit ∈ x.control.breakpoints ++ [j.exit] := by simp
  have hfeed : Yields h ((j.engine.feedAll (A := cortexM) j.data).run.run {})
      (j.Fed (x.control.breakpoints ++ [j.exit]) calm N) (x₁, y) := by
    refine wp_seq (wp_lift (Engine.plays_address (show j.ring.wpAddr < 2 ^ 32 by omega)
      fun a ha => ?_))
    refine wp_seq (wp_lift (Engine.plays_address (show j.ring.rpAddr < 2 ^ 32 by omega)
      fun b hb => ?_))
    exact yields_feed hh hfirm hexit ha hb _ j.data 0 {} x₁ y (.inl ⟨w, .inl hx₁⟩) hN
      (Nat.zero_le _) j.ring.place_zero.symm rfl
  refine wp_then (wp_liftOnly (wp_mono hfeed ?_))
  rintro ⟨moved, progress⟩ ⟨x₂, y₂⟩ ⟨hN₂, ⟨rfl, hbytes, hx₂⟩ | ⟨rfl, hx₂⟩ | ⟨hquits, e, rfl⟩⟩
  · exact yields_settle_moved hr hbytes (hwatch x₂ y₂ hx₂ hN₂)
  · show Yields h ((j.engine.conclude (A := cortexM) .write (patience + 1) j.ring.wpAddr
      j.ring.rpAddr (.error .operationFailed) progress.stats).run ⟨r, true⟩) _ _
    rw [Engine.conclude_failed]
    refine wp_then (wp_liftOnly (Engine.plays_putPointer
      (show j.ring.wpAddr < 2 ^ 32 by omega) fun a ha => ?_))
    have ha : a.toNat = j.ring.wpAddr := ha
    refine ⟨_, play_write ?_, yields_settle_aborted hr (hx₂.told ha)⟩
    rw [Endian.length_encode, ha]
    exact covers_wpAddr hx₂.failed.laid
  · have hends := conclude_failed j.engine (patience + 1) j.ring.wpAddr j.ring.rpAddr e
      progress.stats ⟨r, true⟩
    exact wp_mono (wp_of_within hends _) fun res w hres => .inr (.inr ⟨hquits, hres⟩)

end Chip.Job

end DebugLink
