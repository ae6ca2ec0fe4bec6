import DebugLink.Proofs.Sim.Consumer
import DebugLink.Transfer.Write

/-!
# Writing to the simulated consumer delivers everything

Every access of the host to the target lets the program make a step, so the host and the consumer
take turns, and this is a run of two programs that is followed to its end.

* `yields_feed`: the loop.  The look at the read pointer comes after a step of the consumer, and a
  consumer that has a block to take takes something (`Drains.step`).  Therefore there is ALWAYS
  ROOM, whatever the rate, and the host never backs off.
* `yields_watch`: the wait.  What is left fits into the fifo, and each poll takes at least one byte
  of it: as many polls as the ring has bytes are enough.
* `write_delivers`: the whole write, from the emptied ring to the completed runner.
-/

namespace DebugLink

open Environment Sim

namespace Sim.Drains

variable {r : Ring} {p : Consumer} {data : List UInt8} {bps : List Word} {n : Nat} {w : Intake}
  {x : Sim}

/-- The host writes a piece and the pointer behind it. -/
theorem handOver (h : Drains r data p bps n w x) (hp : p.Suits r data.length) (hram : r.InRam)
    {len : Nat} (hpos : 0 < len) (hroom : n + len + r.block ≤ w.consumed.length + r.capacity)
    (hend : r.place n + len ≤ r.fifoEnd) (hdata : n + len ≤ data.length) {a wpPlace : Word}
    (ha : a.toNat = r.place n) (hwpPlace : wpPlace.toNat = r.wpAddr) :
    ∃ w', Drains r data p bps (n + len) w'
      ((x.wrote a ((data.drop n).take len)).wrote wpPlace
        (x.core.endian.encode 4 (r.place (n + len)))) := by
  have hst := r.fifoStart_eq
  have hwpa : r.wpAddr = r.start := rfl
  have hpl := r.fifoStart_le_place n
  have hout := hp.disjoint (by omega)
  have hlen : ((data.drop n).take len).length = len := by
    rw [List.length_take, List.length_drop]
    omega
  -- for the ring alone this is a piece and a pointer, as for any consumer
  have hw := (({ h.knows with acked := Nat.le_of_eq h.acked_eq.symm } :
    Engine.At r x.core.endian data n n w.consumed.length w).piece hroom hend hdata).pointer
  rw [Intake.written_piece, Intake.written_pointer] at hw
  have hm₁ : x.core.Maps a.toNat ((data.drop n).take len).length :=
    hram.maps_piece h.layout ha (by omega)
  have hl₁ := (Core.layout_store x.core a ((data.drop n).take len)).trans h.layout
  have hm₂ : (x.wrote a ((data.drop n).take len)).core.Maps wpPlace.toNat 4 :=
    hram.maps_wpAddr hl₁ hwpPlace
  refine ⟨_, { hw with acked := Nat.zero_le _ }, h.settled, ?_, ?_, h.status, ?_⟩
  · refine (contents_wrote_word hm₂).trans ?_
    rw [hwpPlace, show (x.wrote a ((data.drop n).take len)).core.contents =
      x.core.contents.store a.toNat ((data.drop n).take len) from Core.contents_store hm₁, ha,
      h.memory]
    rfl
  · exact (Core.layout_store _ _ _).trans hl₁
  · -- the destination lies outside of the ring
    obtain ⟨hle, -, hwhole⟩ := h.window
    refine (Contents.slice_store_of_disjoint ?_).trans
      ((Contents.slice_store_of_disjoint ?_).trans h.drained)
    · rw [Endian.length_encode]
      show p.dest.toNat + w.consumed.length ≤ _ ∨ _
      omega
    · show p.dest.toNat + w.consumed.length ≤ _ ∨ _
      omega

end Sim.Drains

namespace Engine

variable {e : Engine} {c : Consumer} {data : List UInt8} {bps : List Word} {t : Nat}

/-- How a write that has handed over everything leaves the target. -/
def Delivered (e : Engine) (c : Consumer) (data : List UInt8) (bps : List Word) (t : Nat)
    (res : Except Error Unit × Progress) (w : Sim × ManualHost) : Prop :=
  res.1 = .ok () ∧ res.2.stats.bytes = data.length ∧
    res.2.stats.wraps = e.ring.rounds data.length ∧ Quiet t w.2 ∧
    ∃ v, Drains e.ring data c bps data.length v w.1

/-- A piece and the pointer behind it, with whatever comes next. -/
theorem yields_handOver (hc : c.Suits e.ring data.length) (hram : e.ring.InRam) {wpPlace : Word}
    (hwpPlace : wpPlace.toNat = e.ring.wpAddr) {p : Progress} {x : Sim} {y : ManualHost}
    {w : Intake} {rest : List UInt8} {len : Nat} {next : StreamM simCore Unit}
    (h : Drains e.ring data c bps p.stats.bytes w x) (hy : Quiet t y) (hpos : 0 < len)
    (hroom : p.stats.bytes + len + e.ring.block ≤ w.consumed.length + e.ring.capacity)
    (hend : e.ring.place p.stats.bytes + len ≤ e.ring.fifoEnd)
    (hdata : p.stats.bytes + len ≤ data.length) (hrest : rest = data.drop p.stats.bytes)
    (hwraps : p.stats.wraps = e.ring.rounds p.stats.bytes)
    (hnext : ∀ (p' : Progress) (w' : Intake) (x' : Sim) (y' : ManualHost),
      p'.stats.bytes = p.stats.bytes + len →
      p'.stats.wraps = e.ring.rounds p'.stats.bytes →
      Drains e.ring data c bps p'.stats.bytes w' x' → Quiet t y' →
      Yields (next.run.run p') (Delivered e c data bps t) (x', y')) :
    Yields ((do
        writeBuffer (← address (A := simCore) (e.ring.place p.stats.bytes)) (rest.take len)
        countChunk len (e.ring.advance (e.ring.place p.stats.bytes) len).2
        writeWord (A := simCore) .full wpPlace (e.ring.advance (e.ring.place p.stats.bytes) len).1
        giveWay
        next : StreamM simCore Unit).run.run p) (Delivered e c data bps t) (x, y) := by
  have hreach := e.ring.fifoEnd_lt
  have hwrite : x.status.failWrites = false := congrArg Status.failWrites h.status
  have hlen : (rest.take len).length = len := by
    rw [hrest, List.length_take, List.length_drop]
    omega
  have hne : rest.take len ≠ [] := List.ne_nil_of_length_pos (by omega)
  rw [Ring.advance_place hend]
  refine wp_seq (wp_lift (yields_address (e.ring.place_lt_word _) fun a ha => ?_))
  rw [after_ok]
  have hm : x.core.Maps a.toNat (rest.take len).length := hram.maps_piece h.layout ha (by omega)
  refine wp_seq (wp_lift (yields_writeBuffer hne (by omega) hwrite hm ?_))
  rw [after_ok]
  have hl := (Core.layout_store x.core a (rest.take len)).trans h.layout
  refine wp_modify ?_
  refine wp_seq (wp_lift (yields_writeWord hwrite (hram.maps_wpAddr hl hwpPlace) ?_))
  rw [after_ok]
  refine wp_seq (yields_giveWay hy fun y' hy' => ?_)
  obtain ⟨w', hw'⟩ := h.handOver hc hram hpos hroom hend hdata ha hwpPlace
  refine hnext _ w' _ y' rfl ?_ (hrest ▸ hw') hy'
  show p.stats.wraps + _ = _
  rw [hwraps, Ring.rounds_add hend]

/-- The loop.  The consumer works whenever the host looks at its pointer, so there is ALWAYS room
    then, and the host never has to back off. -/
theorem yields_feed (hc : c.Suits e.ring data.length) (hram : e.ring.InRam) {wpPlace rpPlace : Word}
    (hwpPlace : wpPlace.toNat = e.ring.wpAddr) (hrpPlace : rpPlace.toNat = e.ring.rpAddr)
    (own : Nat) (rest : List UInt8) (stalls : Nat) :
    ∀ (p : Progress) (w : Intake) (x : Sim) (y : ManualHost),
      Drains e.ring data c bps p.stats.bytes w x → Quiet t y →
      own = e.ring.place p.stats.bytes → rest = data.drop p.stats.bytes →
      p.stats.wraps = e.ring.rounds p.stats.bytes →
      Yields ((e.feed (A := simCore) wpPlace rpPlace own rest stalls).run.run p)
        (Delivered e c data bps t) (x, y) := by
  have htwo := e.ring.two_blocks_le
  have hb := e.ring.block_pos
  induction own, rest, stalls using Engine.feed.induct e with
  | case1 own stalls =>
      intro p w x y h hy _ hrest hwraps
      have hall : p.stats.bytes = data.length := by
        have := List.drop_eq_nil_iff.mp hrest.symm
        have := h.window
        omega
      rw [feed, dif_pos rfl]
      exact ⟨rfl, hall, hall ▸ hwraps, hy, w, hall ▸ h⟩
  | case2 own rest stalls hne _ ihPiece =>
      intro p w x y h hy hat hrest hwraps
      have hmore : p.stats.bytes < data.length := by
        refine Nat.lt_of_not_le fun hle => hne ?_
        rw [hrest, List.drop_of_length_le hle]
      rw [feed, dif_neg hne]
      have hbehind := h.window
      -- the look at the read pointer lets the consumer work first
      obtain ⟨w', hw', hgrow, hprogress⟩ := h.counted.step hc hram (by omega)
      obtain ⟨hle, -, -⟩ := hw'.window
      have hroom : p.stats.bytes + e.ring.block < w'.consumed.length + e.ring.capacity := by
        by_cases hblock : w.consumed.length + e.ring.block ≤ p.stats.bytes
        · have := hprogress (by omega) (Or.inr hblock)
          omega
        · omega
      have hv := hw'.boundary (by omega)
      refine wp_seq (yields_partnerPointer (hram.maps_rpAddr hw'.layout hrpPlace) ?_)
      rw [hrpPlace, hw'.words.2, after_ok]
      refine wp_get (wp_seq (plays_note ?_))
      refine wp_seq (yields_checkPointer hv ?_)
      have hs : ¬ e.ring.writeSpace own (e.ring.place w'.consumed.length) = 0 := by
        have := Ring.writeSpace_pos hle hroom
        rw [hat]
        omega
      rw [after_ok, dif_neg hs]
      obtain ⟨len, hlen⟩ : ∃ len, len = trimChunk (e.ring.place w'.consumed.length)
          (min (e.ring.writeSpace own (e.ring.place w'.consumed.length)) rest.length) := ⟨_, rfl⟩
      have hk := ihPiece (e.ring.place w'.consumed.length) hs
      simp only [← hlen] at hk ⊢
      have hpos : 0 < len := by
        have := List.length_pos_iff.mpr hne
        rw [hlen]
        exact trimChunk_pos (by omega)
      subst hat
      obtain ⟨hfit, hend, hlong⟩ := piece_fits hle (by omega) hv hlen
      have hdata : p.stats.bytes + len ≤ data.length := by
        rw [hrest, List.length_drop] at hlong
        omega
      refine yields_handOver hc hram hwpPlace hw' hy hpos hfit hend hdata hrest hwraps ?_
      intro p' w'' x' y' hp' hwraps' h' hy'
      refine hk p' w'' x' y' h' hy' ?_ ?_ hwraps'
      · rw [hp', Ring.advance_place hend]
      · rw [hp', hrest, List.drop_drop]

/-- All of the data is where the consumer puts it. -/
structure Arrived (r : Ring) (data : List UInt8) (c : Consumer) (x : Sim) : Prop where
  layout : x.core.memory.layout = fresh.core.memory.layout
  alive : x.core.contents.word x.core.endian r.rpAddr ≠ 0
  dest : x.core.contents.slice c.dest.toNat data.length = data

/-- What arrived stays there while the memory is left alone. -/
theorem Arrived.intact {r : Ring} {x x' : Sim} {s : Status} (h : Arrived r data c x)
    (hx : Intact x x' s) : Arrived r data c x' where
  layout := hx.memory ▸ h.layout
  alive := by
    rw [hx.contents, hx.endian]
    exact h.alive
  dest := by
    rw [hx.contents]
    exact h.dest

/-- The wait.  Each look at the target lets the consumer work; as everything has been handed over,
    it takes something every time, and what is left fits into the fifo. -/
theorem yields_watch (hc : c.Suits e.ring data.length) (hram : e.ring.InRam) {deadline : Nat}
    (hdeadline : deadline < 2 ^ 64) (patience : Nat) :
    ∀ (t : Nat) (w : Intake) (x : Sim) (y : ManualHost),
      Drains e.ring data c (bps ++ [c.exit]) data.length w x → Quiet t y →
      data.length < w.consumed.length + patience →
      t + data.length ≤ deadline + w.consumed.length →
      Yields (Runner.watch (A := simCore) deadline 1 patience)
        (fun a v => a = .halted ∧ Stopped bps c.exit v.1 ∧ Arrived e.ring data c v.1) (x, y) := by
  induction patience with
  | zero =>
      intro t w x y h _ hpatience _
      have := h.window
      omega
  | succ patience ih =>
      intro t w x y h hy hpatience htime
      obtain ⟨hle, -, -⟩ := h.window
      rw [Runner.watch]
      refine yields_poll ?_
      by_cases hall : w.consumed.length = data.length
      · obtain ⟨hcore, hstatus⟩ := h.last hc hram hall (by simp)
        have hstate : x.step.control.state = .halted := congrArg Status.state hstatus
        rw [hstate]
        refine ⟨rfl, ⟨hstatus, ?_⟩, ?_, ?_, ?_⟩
        · show x.step.core.regs.get .pc = c.exit
          rw [hcore]
          exact RegisterFile.get_set_self _ _ _
        · rw [hcore]
          exact h.layout
        · show x.step.core.contents.word x.step.core.endian e.ring.rpAddr ≠ 0
          have hword := h.words.2
          have := e.ring.fifoStart_le_place w.consumed.length
          have := e.ring.fifoStart_eq
          rw [hcore]
          show x.core.contents.word x.core.endian e.ring.rpAddr ≠ 0
          omega
        · show x.step.core.contents.slice _ _ = _
          rw [hcore]
          show x.core.contents.slice _ _ = _
          have hdrained := h.drained
          rw [h.memory, ← hall, hdrained, h.knows.sound.consumed, hall, List.take_length]
      · obtain ⟨w', hw', -, hgrow⟩ := h.step hc hram (by omega)
        have hlt := hgrow (by omega) (Or.inl rfl)
        have hstate : x.step.control.state = .debugRunning := congrArg Status.state hw'.status
        rw [hstate]
        have hnow : ¬ deadline ≤ y.now.toNat := by
          rw [hy.now]
          omega
        refine wp_played ?_
        show Yields (if deadline ≤ y.now.toNat then _ else _ : Dialogue simCore Runner.Watch) _ _
        rw [if_neg hnow]
        -- the clock goes on by one, and nobody shuts the host down
        refine wp_played (wp_played (wp_played ?_))
        simp only [play, ManualHost.host, ManualHost.perform, hy.shutdown, Option.any_none]
        refine ih (t + 1) w' _ _ hw' ⟨?_, rfl⟩ (by omega) (by omega)
        show (y.now + UInt64.ofNat 1).toNat = t + 1
        rw [UInt64.toNat_add, hy.now, show (UInt64.ofNat 1).toNat = 1 from rfl]
        exact Nat.mod_eq_of_lt (by omega)

/-! ## The whole transfer -/

/-- The consumer stands at the start of a ring that was emptied. -/
theorem drains_begun {r : Ring} {x x' : Sim} (data : List UInt8)
    (hb : Begun r (.consumer c) bps x x')
    (hl : x.core.memory.layout = fresh.core.memory.layout) (hzero : c.consumed = 0) :
    ∃ w, Drains r data c bps 0 w x' := by
  have hfresh : Intake.Fresh r x'.core.endian { memory := x'.core.contents, rp := r.fifoStart } :=
    ⟨hb.words.1, hb.words.2, rfl, rfl, rfl, rfl, rfl⟩
  refine ⟨_, ⟨.fresh hfresh, rfl, rfl, Nat.zero_le _⟩, rfl, rfl, hb.layout.trans hl, ?_, rfl⟩
  exact hb.status.trans
    (congrArg (fun q => Status.running (.consumer q) bps) (Consumer.after_zero hzero).symm)

/-- The loop hands over all of the data, ... -/
theorem yields_feedAll {x x' : Sim} {y : ManualHost} (hc : c.Suits e.ring data.length)
    (hram : e.ring.InRam) (hl : x.core.memory.layout = fresh.core.memory.layout)
    (hzero : c.consumed = 0) (hb : Begun e.ring (.consumer c) bps x x') (hy : Quiet t y) :
    Yields ((e.feedAll (A := simCore) data).run.run {}) (Delivered e c data bps t) (x', y) := by
  have hin := e.ring.fifoEnd_lt
  have hend := e.ring.fifoEnd_eq
  have hst := e.ring.fifoStart_eq
  have hrpa := e.ring.rpAddr_eq
  obtain ⟨w, hw⟩ := drains_begun data hb hl hzero
  refine wp_seq (wp_lift (yields_address (by omega) fun wpPlace hwp => ?_))
  refine wp_seq (wp_lift (yields_address (by omega) fun rpPlace hrp => ?_))
  exact yields_feed hc hram hwp hrp _ data 0 {} w x' y hw hy e.ring.place_zero.symm rfl
    Ring.rounds_zero.symm

/-- How the whole write ends. -/
structure WriteEnds (e : Engine) (c : Consumer) (data : List UInt8) (bps : List Word)
    (res : Outcome × Held simCore) (w : Sim × ManualHost) : Prop where
  finished : ∃ stats, res.1 = .finished stats ∧ stats.bytes = data.length ∧
    stats.wraps = e.ring.rounds data.length
  completed : res.2.runner.state = .completed
  clear : res.2.busy = false
  arrived : Arrived e.ring data c w.1
  breakpoints : w.1.control.breakpoints = bps

/-- ... and the whole transfer ends well. -/
theorem yields_write {r : Runner simCore} {x : Sim} {y : ManualHost} {patience : Nat}
    (hr : r.state.isActive = false) (hpoll : r.pollInterval = 1)
    (hx : Ready e.ring r.image (.consumer c) x) (hc : c.Suits e.ring data.length)
    (hzero : c.consumed = 0) (hexit : c.exit = r.image.exit) (hy : Quiet 0 y)
    (htime : e.ring.size ≤ e.config.waitTimeout) (hpatience : e.ring.size ≤ patience) :
    Yields ((e.write (A := simCore) patience data).run ⟨r, false⟩)
      (WriteEnds e c data x.control.breakpoints) (x, y) := by
  refine wp_then (yields_begin hx hr fun r' x' himage hpoll' hr' hb => ?_)
  have hexit' : r'.image.exit = c.exit := by rw [himage, hexit]
  rw [← hexit] at hb
  -- the data goes through the ring
  refine wp_then (wp_liftOnly (wp_mono (yields_feedAll hc hx.ram hx.layout hzero hb hy) ?_))
  rintro ⟨_, progress⟩ ⟨x'', y''⟩ ⟨rfl, hbytes, hwraps, hy'', v, hv⟩
  -- what is left in the fifo is drained during the wait
  have hroom := hv.window
  have hend := e.ring.fifoEnd_eq
  have hst := e.ring.fifoStart_eq
  have hrpa := e.ring.rpAddr_eq
  have hreach := e.ring.fifoEnd_lt
  have hfe : e.ring.fifoEnd = e.ring.wpAddr + e.ring.size := rfl
  refine yields_conclude (h := ⟨r', true⟩) (by omega) hr' ?_
  show Yields (Runner.watch (min (y''.now.toNat + _) _) r'.pollInterval patience) _ _
  rw [hpoll', hpoll, hy''.now, Nat.zero_add]
  refine wp_mono
    (yields_watch hc hx.ram (by omega) patience 0 v x'' y'' hv hy'' (by omega) (by omega)) ?_
  rintro _ ⟨x₁, y₁⟩ ⟨rfl, hstop, harrived⟩
  have hm : x₁.core.Maps e.ring.rpAddr 4 := hx.ram.maps_rpAddr harrived.layout rfl
  refine ⟨rfl, hexit'.symm ▸ hstop, hm, harrived.alive, fun r'' x₂ hstate hx₂ => ?_⟩
  exact ⟨⟨_, rfl, hbytes, hwraps⟩, hstate, rfl, harrived.intact hx₂,
    congrArg Status.breakpoints hx₂.status⟩

/-- A WRITE TO THE SIMULATED CONSUMER DELIVERS EVERYTHING.  Whatever the ring, the byte order, the
    rate of the consumer and the data: the write succeeds, the data is at its destination, byte for
    byte, and the host's pointer went around once in every fifo of bytes.  The runner is completed,
    the guard is clear, and the breakpoints are as before.  The wait does not poll more often than
    the ring has bytes, so that any patience from there on gives the same. -/
theorem write_delivers (e : Engine) {image : simCore.Img} {r : Runner simCore} (c : Consumer)
    (data : List UInt8) (x : Sim) (y : ManualHost) (notes : Array Note) (patience : Nat)
    (accepted : Runner.ofImage? image = .ok r) (ready : Ready e.ring image (.consumer c) x)
    (suits : c.Suits e.ring data.length) (unused : c.consumed = 0) (exits : c.exit = image.exit)
    (clock : y.now = 0) (undisturbed : y.shutdownAfter = none)
    (time : e.ring.size ≤ e.config.waitTimeout) (patient : e.ring.size ≤ patience) :
    ∃ stats runner x' y' notes',
      ((e.write (A := simCore) patience data).run ⟨r, false⟩).run Sim.target ManualHost.host
        ⟨x, y, notes⟩ = ((.finished stats, ⟨runner, false⟩), ⟨x', y', notes'⟩) ∧
      stats.bytes = data.length ∧ (stats.wraps : Nat) = data.length / (e.ring.size - 8) ∧
      x'.core.load c.dest data.length = data ∧
      runner.state = .completed ∧ x'.control.breakpoints = x.control.breakpoints := by
  obtain ⟨regs, -, -, rfl⟩ := Runner.eq_of_ofImage? accepted
  have hrun := run_of_wp (yields_write (r := { image, regs }) rfl rfl ready suits unused exits
    ⟨congrArg UInt64.toNat clock, undisturbed⟩ time patient) notes
  obtain ⟨res, hres⟩ : ∃ res, ((e.write (A := simCore) patience data).run
    ⟨{ image, regs }, false⟩).run Sim.target ManualHost.host ⟨x, y, notes⟩ = res := ⟨_, rfl⟩
  rw [hres] at hrun ⊢
  obtain ⟨⟨outcome, runner, busy⟩, x', y', notes'⟩ := res
  obtain ⟨⟨stats, rfl, hbytes, hwraps⟩, hstate, rfl, harrived, hbps⟩ := hrun
  -- the length is a word, so the counter shows it as it is
  have hshown : (stats.wraps : Nat) = data.length / e.ring.capacity := by
    rw [hwraps, Ring.toNat_rounds_of_word (suits.total ▸ c.total.isLt)]
  refine ⟨stats, runner, x', y', notes', rfl, hbytes, hshown, ?_, hstate, hbps⟩
  rcases Nat.eq_zero_or_pos data.length with hnil | hpos
  · rw [List.eq_nil_of_length_eq_zero hnil]
    exact List.eq_nil_of_length_eq_zero (Core.length_load _ _ _)
  · rw [Core.load_eq (Core.maps_of_layout harrived.layout (suits.mapped hpos))]
    exact harrived.dest

/-- A consumer of nine bytes, which go around the ring once. -/
def nineBytes : Consumer where
  ring := ramRing.view
  dest := 0x20002000
  total := 9
  rate := 4
  exit := 0x20001100

/-- Nine bytes, which are no whole number of blocks. -/
theorem write_delivers_nine :
    ∃ stats runner x' y' notes',
      (((⟨ramRing, {}⟩ : Engine).write (A := simCore) 16 [1, 2, 3, 4, 5, 6, 7, 8, 9]).run
        ⟨{ image := plainImage, regs := [] }, false⟩).run Sim.target ManualHost.host
        ⟨waiting (.consumer nineBytes), {}, #[]⟩ =
          ((.finished stats, ⟨runner, false⟩), ⟨x', y', notes'⟩) ∧
      stats.bytes = 9 ∧ (stats.wraps : Nat) = 1 ∧
      x'.core.load 0x20002000 9 = [1, 2, 3, 4, 5, 6, 7, 8, 9] ∧
      runner.state = .completed ∧ x'.control.breakpoints = [] := by
  have suits : nineBytes.Suits ramRing 9 :=
    ⟨rfl, rfl, by decide, rfl, fun _ => fresh_covers_ram (by decide) (by decide),
      fun _ => Or.inr (by decide)⟩
  exact write_delivers ⟨ramRing, {}⟩ nineBytes [1, 2, 3, 4, 5, 6, 7, 8, 9]
    (waiting (.consumer nineBytes)) {} #[] 16 rfl (ready_waiting _) suits rfl rfl rfl rfl
    (by decide) (by decide)

end Engine

end DebugLink
