import DebugLink.Proofs.Sim.Producer

/-!
# Reading from the simulated producer delivers everything

The producer makes a step whenever the host looks at the write pointer, and another one whenever
the host reads a piece.  The second kind does no harm: what has been published stays where it is
until the host's pointer moves.

* `yields_drain`: the loop.  The look at the write pointer comes after a step of the producer, and
  a producer that finds the fifo empty puts something there (`Fills.step`).  Therefore there is
  ALWAYS DATA, whatever the rate, and the host never backs off.
* `yields_watch_ended`: the wait.  What has all been read has all been produced, and the program
  ends with the next step if it has not done so before: a single poll is enough.
* `read_delivers`: the whole read, from the emptied ring to the completed runner.
-/

namespace DebugLink

open Environment Sim

namespace Sim.Fills

variable {r : Ring} {p : Producer} {source : List UInt8} {bps : List Word} {n : Nat} {w : Supply}
  {x : Sim}

/-- The pointer is one that the host accepts. -/
theorem valid (h : Fills r source p bps n w x) : r.isValidPtr w.wp = true := by
  obtain ⟨q, -, -, hq⟩ := h.ahead
  have haligned := h.aligned
  rw [hq] at haligned ⊢
  exact Ring.isValidPtr_iff.mpr ⟨r.fifoStart_le_place q, r.place_lt q, haligned⟩

/-- A fifo that is not empty does not look empty. -/
theorem readSpace_pos (h : Fills r source p bps n w x) (hlt : n < w.produced) :
    0 < r.readSpace w.wp (r.place n) := by
  obtain ⟨q, hq, hq', hwp⟩ := h.ahead
  have hne := Ring.place_ne (r := r) (show n < q by omega) hq'
  have hpl := r.place_lt n
  rw [hwp, Ring.readSpace]
  split <;> omega

/-- What the host finds in the fifo is the next piece of the source. -/
theorem piece_eq (h : Fills r source p bps n w x) {len : Nat} (hreach : n + len ≤ w.produced)
    (hend : r.place n + len ≤ r.fifoEnd) :
    x.core.contents.slice (r.place n) len = (source.drop n).take len := by
  have hknows : Engine.Upto r x.core.endian source n (n + len) w :=
    { h.knows with published := h.published_eq.symm ▸ hreach }
  rw [h.memory]
  exact (hknows.piece hend).1

/-- The host stores the pointer behind a piece that it has read. -/
theorem takeOver (h : Fills r source p bps n w x) (hp : p.Suits r source.length) (hram : r.InRam)
    {len : Nat} (hpos : 0 < len) (hreach : n + len ≤ w.produced)
    (hend : r.place n + len ≤ r.fifoEnd) {rpPlace : Word} (hrpPlace : rpPlace.toNat = r.rpAddr) :
    ∃ w', Fills r source p bps (n + len) w'
      (x.wrote rpPlace (x.core.endian.encode 4 (r.place (n + len)))) := by
  have hst := r.fifoStart_eq
  have hrpa := r.rpAddr_eq
  have hwpa : r.wpAddr = r.start := rfl
  have hcap := r.fifoEnd_eq
  have hbehind := h.window
  have hout := hp.disjoint (by omega)
  -- the producer has put there at least what is read
  have hknows : Engine.Upto r x.core.endian source n (n + len) w :=
    { h.knows with published := h.published_eq.symm ▸ hreach }
  have hw := (hknows.piece hend).2.pointer
  have hseen := (hknows.piece hend).2.seen
  rw [Supply.looked_piece] at hw hseen
  have hm : x.core.Maps rpPlace.toNat 4 := hram.maps_rpAddr h.layout hrpPlace
  refine ⟨_, { hw with published := Nat.zero_le _ }, hseen, h.settled, ?_, ?_, ?_, ?_, h.aligned,
    ?_⟩
  · rw [contents_wrote_word hm, hrpPlace, h.memory]
    rfl
  · exact (Core.layout_store _ _ _).trans h.layout
  · rcases h.status with hs | ⟨hall, hs⟩
    · exact Or.inl hs
    · exact Or.inr ⟨hall, hs.status, hs.pc⟩
  · refine (Contents.slice_store_of_disjoint ?_).trans h.held
    rw [Endian.length_encode]
    omega
  · obtain ⟨q, hq, hq', hwp⟩ := h.ahead
    exact ⟨q, hq, by omega, hwp⟩

end Sim.Fills

namespace Engine

variable {e : Engine} {c : Producer} {source : List UInt8} {bps : List Word} {t : Nat}

/-- How a read that has received everything leaves the target. -/
def Fetched (e : Engine) (c : Producer) (source : List UInt8) (bps : List Word) (t : Nat)
    (res : Except Error Unit × Progress) (w : Sim × ManualHost) : Prop :=
  res.1 = .ok () ∧ res.2.stats.bytes = source.length ∧
    res.2.stats.wraps = e.ring.rounds source.length ∧ res.2.received = source ∧
    Quiet t w.2 ∧ ∃ v, Fills e.ring source c bps source.length v w.1

/-- A piece and the pointer behind it, with whatever comes next. -/
theorem yields_takeOver (hc : c.Suits e.ring source.length) (hram : e.ring.InRam) {rpPlace : Word}
    (hrpPlace : rpPlace.toNat = e.ring.rpAddr) {p : Progress} {x : Sim} {y : ManualHost}
    {w : Supply} {len : Nat} {next : StreamM simCore Unit}
    (h : Fills e.ring source c bps p.stats.bytes w x) (hy : Quiet t y) (hpos : 0 < len)
    (hreach : p.stats.bytes + len ≤ w.produced)
    (hend : e.ring.place p.stats.bytes + len ≤ e.ring.fifoEnd)
    (hreceived : p.received = source.take p.stats.bytes)
    (hwraps : p.stats.wraps = e.ring.rounds p.stats.bytes)
    (hnext : ∀ (p' : Progress) (w' : Supply) (x' : Sim) (y' : ManualHost),
      p'.stats.bytes = p.stats.bytes + len → p'.received = source.take p'.stats.bytes →
      p'.stats.wraps = e.ring.rounds p'.stats.bytes →
      Fills e.ring source c bps p'.stats.bytes w' x' → Quiet t y' →
      Yields (next.run.run p') (Fetched e c source bps t) (x', y')) :
    Yields ((do
        let chunk ← readBuffer (← address (A := simCore) (e.ring.place p.stats.bytes)) len
        receive chunk.val
        countChunk len (e.ring.advance (e.ring.place p.stats.bytes) len).2
        writeWord (A := simCore) .full rpPlace (e.ring.advance (e.ring.place p.stats.bytes) len).1
        giveWay
        next : StreamM simCore Unit).run.run p) (Fetched e c source bps t) (x, y) := by
  have hin := e.ring.fifoEnd_lt
  rw [Ring.advance_place hend]
  refine wp_seq (wp_lift (yields_address (e.ring.place_lt_word _) fun a ha => ?_))
  rw [after_ok]
  -- the look at the fifo lets the producer work first
  obtain ⟨w', hw', hgrow, -, -⟩ := h.counted.step hc hram
  refine wp_seq (wp_lift (yields_readBuffer hpos (by omega)
    (hram.maps_piece hw'.layout ha hend) fun bytes hbytes => ?_))
  rw [after_ok]
  rw [ha, hw'.piece_eq (by omega) hend] at hbytes
  have hwrite : x.counted.step.status.failWrites = false := by
    rcases hw'.status with hs | ⟨_, hs⟩
    · exact congrArg Status.failWrites hs
    · exact congrArg Status.failWrites hs.status
  refine wp_modify (wp_modify ?_)
  refine wp_seq (wp_lift (yields_writeWord hwrite (hram.maps_rpAddr hw'.layout hrpPlace) ?_))
  rw [after_ok]
  refine wp_seq (yields_giveWay hy fun y' hy' => ?_)
  obtain ⟨w'', hw''⟩ := hw'.takeOver hc hram hpos (by omega) hend hrpPlace
  refine hnext _ w'' _ y' rfl ?_ ?_ hw'' hy'
  · show p.received ++ bytes.val = _
    rw [hreceived, hbytes]
    exact (List.take_add ..).symm
  · show p.stats.wraps + _ = _
    rw [hwraps, Ring.rounds_add hend]

/-- The loop.  The producer works whenever the host looks at its pointer, so there is ALWAYS data
    then, and the host never has to back off. -/
theorem yields_drain (hc : c.Suits e.ring source.length) (hram : e.ring.InRam)
    {wpPlace rpPlace : Word} (hwpPlace : wpPlace.toNat = e.ring.wpAddr)
    (hrpPlace : rpPlace.toNat = e.ring.rpAddr)
    (own rest stalls : Nat) :
    ∀ (p : Progress) (w : Supply) (x : Sim) (y : ManualHost),
      Fills e.ring source c bps p.stats.bytes w x → Quiet t y →
      own = e.ring.place p.stats.bytes → p.stats.bytes + rest = source.length →
      p.received = source.take p.stats.bytes →
      p.stats.wraps = e.ring.rounds p.stats.bytes →
      Yields ((e.drain (A := simCore) wpPlace rpPlace own rest stalls).run.run p)
        (Fetched e c source bps t) (x, y) := by
  induction own, rest, stalls using Engine.drain.induct e with
  | case1 own stalls =>
      intro p w x y h hy _ hsum hreceived hwraps
      have hall : p.stats.bytes = source.length := hsum
      rw [drain, dif_pos rfl]
      refine ⟨rfl, hall, hall ▸ hwraps, ?_, hy, w, hall ▸ h⟩
      show p.received = source
      rw [hreceived, hall, List.take_length]
  | case2 own rest stalls hne _ ihPiece =>
      intro p w x y h hy hat hsum hreceived hwraps
      subst hat
      rw [drain, dif_neg hne]
      -- the look at the write pointer lets the producer work first
      obtain ⟨w', hw', -, hprogress, -⟩ := h.counted.step hc hram
      have hdata := hprogress (by omega)
      refine wp_seq (yields_partnerPointer (hram.maps_wpAddr hw'.layout hwpPlace) ?_)
      rw [hwpPlace, hw'.words.1, after_ok]
      refine wp_get (wp_seq (plays_note ?_))
      refine wp_seq (yields_checkPointer hw'.valid ?_)
      have hs : ¬ e.ring.readSpace w'.wp (e.ring.place p.stats.bytes) = 0 :=
        Nat.ne_of_gt (hw'.readSpace_pos hdata)
      rw [after_ok, dif_neg hs]
      obtain ⟨len, hlen⟩ : ∃ len, len = trimChunk (e.ring.place p.stats.bytes)
          (min (e.ring.readSpace w'.wp (e.ring.place p.stats.bytes)) rest) := ⟨_, rfl⟩
      have hpos : 0 < len := by
        rw [hlen]
        exact trimChunk_pos (by omega)
      obtain ⟨hreach, hend, hle⟩ := hw'.knows.piece_reached (by omega) hlen
      rw [hw'.published_eq] at hreach
      subst hlen
      refine yields_takeOver hc hram hrpPlace hw' hy hpos hreach hend hreceived hwraps ?_
      intro p' w'' x' y' hp' hreceived' hwraps' h' hy'
      refine ihPiece w'.wp hs p' w'' x' y' h' hy' ?_ (by omega) hreceived' hwraps'
      rw [hp', Ring.advance_place hend]

/-- The wait.  Everything has been read, so everything has been produced, and the program has ended
    or does so now. -/
theorem yields_watch_ended (hc : c.Suits e.ring source.length) (hram : e.ring.InRam)
    {deadline interval patience : Nat} {w : Supply} {x : Sim} {y : ManualHost}
    (h : Fills e.ring source c bps source.length w x) (hpatience : 0 < patience) :
    Yields (Runner.watch (A := simCore) deadline interval patience)
      (fun a v => a = .halted ∧ Stopped bps c.exit v.1 ∧
        ∃ w', Fills e.ring source c bps source.length w' v.1) (x, y) := by
  obtain ⟨patience, rfl⟩ := Nat.exists_eq_succ_of_ne_zero (Nat.ne_of_gt hpatience)
  have hbehind := h.window
  obtain ⟨w', hw', -, -, hlast⟩ := h.step hc hram
  have hstop := hlast (by omega)
  have hstate : x.step.control.state = .halted := congrArg Status.state hstop.status
  rw [Runner.watch]
  refine yields_poll ?_
  rw [hstate]
  exact ⟨rfl, hstop, w', hw'⟩

/-! ## The whole transfer -/

/-- The producer stands at the start of a ring that was emptied. -/
theorem fills_begun {r : Ring} {x x' : Sim}
    (hb : Begun r (.producer c) (bps ++ [c.exit]) x x')
    (hl : x.core.memory.layout = fresh.core.memory.layout) (hzero : c.produced = 0)
    (hc : c.Suits r source.length)
    (hheld : x.core.contents.slice c.src.toNat source.length = source) :
    ∃ w, Fills r source c bps 0 w x' := by
  have hst := r.fifoStart_eq
  have hrpa := r.rpAddr_eq
  have hwpa : r.wpAddr = r.start := rfl
  have hlt := r.fifoStart_lt
  have hcap := r.capacity_pos
  -- both words point at the start of the fifo
  have hfresh : Supply.Fresh r x'.core.endian { memory := x'.core.contents, wp := r.fifoStart } :=
    ⟨hb.words.1, hb.words.2, rfl, rfl, rfl, rfl, rfl⟩
  refine ⟨_, ⟨.fresh hfresh, rfl, Nat.le_refl _⟩, rfl, rfl, rfl, hb.layout.trans hl, Or.inl ?_, ?_,
    ?_, 0, Nat.le_refl _, by omega, r.place_zero.symm⟩
  · exact hb.status.trans (congrArg (fun q => Status.running (.producer q) (bps ++ [c.exit]))
      (Producer.after_zero hzero).symm)
  · -- the source lies outside of the ring
    show x'.core.contents.slice _ _ = source
    rcases Nat.eq_zero_or_pos source.length with hnil | hpos
    · rw [List.eq_nil_of_length_eq_zero hnil]
      rfl
    · have hout := hc.disjoint hpos
      rw [hb.contents, Contents.slice_store_of_disjoint (by rw [Endian.length_encode]; omega),
        Contents.slice_store_of_disjoint (by rw [Endian.length_encode]; omega), hheld]
  · show (r.fifoStart - r.fifoStart) % r.block = 0
    simp

theorem yields_drainAll {x x' : Sim} {y : ManualHost} (hc : c.Suits e.ring source.length)
    (hram : e.ring.InRam) (hl : x.core.memory.layout = fresh.core.memory.layout)
    (hzero : c.produced = 0) (hheld : x.core.contents.slice c.src.toNat source.length = source)
    (hb : Begun e.ring (.producer c) (bps ++ [c.exit]) x x') (hy : Quiet t y) :
    Yields ((e.drainAll (A := simCore) source.length).run.run {}) (Fetched e c source bps t)
      (x', y) := by
  have hin := e.ring.fifoEnd_lt
  have hend := e.ring.fifoEnd_eq
  have hst := e.ring.fifoStart_eq
  have hrpa := e.ring.rpAddr_eq
  obtain ⟨w, hw⟩ := fills_begun hb hl hzero hc hheld
  refine wp_seq (wp_lift (yields_address (by omega) fun wpPlace hwp => ?_))
  refine wp_seq (wp_lift (yields_address (by omega) fun rpPlace hrp => ?_))
  exact yields_drain hc hram hwp hrp _ source.length 0 {} w x' y hw hy e.ring.place_zero.symm
    (Nat.zero_add _) rfl Ring.rounds_zero.symm

/-- How the whole read ends. -/
structure ReadEnds (e : Engine) (c : Producer) (source : List UInt8) (bps : List Word)
    (res : (Outcome × List UInt8) × Held simCore) (w : Sim × ManualHost) : Prop where
  finished : ∃ stats, res.1.1 = .finished stats ∧ stats.bytes = source.length ∧
    stats.wraps = e.ring.rounds source.length
  filled : res.1.2 = source
  completed : res.2.runner.state = .completed
  clear : res.2.busy = false
  kept : w.1.core.contents.slice c.src.toNat source.length = source
  layout : w.1.core.memory.layout = fresh.core.memory.layout
  breakpoints : w.1.control.breakpoints = bps

theorem yields_read {r : Runner simCore} {x : Sim} {y : ManualHost} {patience : Nat}
    {buffer : List UInt8} (hlen : buffer.length = source.length)
    (hblocks : source.length % e.ring.block = 0) (hr : r.state.isActive = false)
    (hx : Ready e.ring r.image (.producer c) x) (hc : c.Suits e.ring source.length)
    (hheld : x.core.contents.slice c.src.toNat source.length = source) (hzero : c.produced = 0)
    (hexit : c.exit = r.image.exit) (hy : Quiet t y) (hpatience : 0 < patience) :
    Yields ((e.read (A := simCore) patience buffer).run ⟨r, false⟩)
      (ReadEnds e c source x.control.breakpoints) (x, y) := by
  have hend := e.ring.fifoEnd_eq
  have hst := e.ring.fifoStart_eq
  have hin := e.ring.fifoEnd_lt
  rw [Engine.read, hlen, if_neg (not_not_intro hblocks)]
  refine wp_then (yields_begin hx hr fun r' x' himage _ hr' hb => ?_)
  have hexit' : r'.image.exit = c.exit := by rw [himage, hexit]
  rw [← hexit] at hb
  -- the data goes through the ring
  refine wp_then (wp_liftOnly (wp_mono
    (yields_drainAll hc hx.ram hx.layout hzero hheld hb hy) ?_))
  rintro ⟨_, progress⟩ ⟨x'', y''⟩ ⟨rfl, hbytes, hwraps, hreceived, hy'', v, hv⟩
  refine wp_then (yields_conclude (h := ⟨r', true⟩) (by omega) hr' ?_)
  refine wp_mono (yields_watch_ended hc hx.ram hv hpatience) ?_
  rintro _ ⟨x₁, y₁⟩ ⟨rfl, hstop, v', hv'⟩
  have hm : x₁.core.Maps e.ring.wpAddr 4 := hx.ram.maps_wpAddr hv'.layout rfl
  have halive : x₁.core.contents.word x₁.core.endian e.ring.wpAddr ≠ 0 := by
    have := (Ring.isValidPtr_iff.mp hv'.valid).1
    rw [hv'.words.1]
    omega
  refine ⟨rfl, hexit'.symm ▸ hstop, hm, halive, fun r'' x₂ hstate hx₂ => ?_⟩
  refine ⟨⟨_, rfl, hbytes, hwraps⟩, ?_, hstate, rfl, ?_, ?_, congrArg Status.breakpoints hx₂.status⟩
  · show fill buffer progress.received = source
    rw [hreceived, fill, ← hlen, List.drop_length, List.append_nil]
  · rw [hx₂.contents, hv'.memory]
    exact hv'.held
  · rw [hx₂.memory]
    exact hv'.layout

/-- A READ FROM THE SIMULATED PRODUCER DELIVERS EVERYTHING.  Whatever the ring, the byte order and
    the rate of the producer: a read of whole blocks succeeds, the buffer holds the source range,
    byte for byte, and the host's pointer went around once in every fifo of bytes.  The source is
    as before, the runner is completed, and the guard is clear.  The wait polls once, so that any
    patience gives the same. -/
theorem read_delivers (e : Engine) {image : simCore.Img} {r : Runner simCore} (c : Producer)
    (buffer : List UInt8) (x : Sim) (y : ManualHost) (notes : Array Note) (patience : Nat)
    (whole : buffer.length % e.ring.block = 0) (accepted : Runner.ofImage? image = .ok r)
    (ready : Ready e.ring image (.producer c) x) (suits : c.Suits e.ring buffer.length)
    (unused : c.produced = 0) (exits : c.exit = image.exit) (undisturbed : y.shutdownAfter = none)
    (patient : 0 < patience) :
    ∃ stats runner x' y' notes',
      ((e.read (A := simCore) patience buffer).run ⟨r, false⟩).run Sim.target ManualHost.host
        ⟨x, y, notes⟩ =
          (((.finished stats, x.core.load c.src buffer.length), ⟨runner, false⟩),
            ⟨x', y', notes'⟩) ∧
      stats.bytes = buffer.length ∧ (stats.wraps : Nat) = buffer.length / (e.ring.size - 8) ∧
      x'.core.load c.src buffer.length = x.core.load c.src buffer.length ∧
      runner.state = .completed ∧ x'.control.breakpoints = x.control.breakpoints := by
  obtain ⟨regs, -, -, rfl⟩ := Runner.eq_of_ofImage? accepted
  -- loading a range that is mapped, or empty, gives what memory holds there
  have hload : ∀ x : Sim, x.core.memory.layout = fresh.core.memory.layout →
      x.core.load c.src buffer.length = x.core.contents.slice c.src.toNat buffer.length := by
    intro x hl
    rcases Nat.eq_zero_or_pos buffer.length with hnil | hpos
    · rw [hnil]
      exact List.eq_nil_of_length_eq_zero (Core.length_load _ _ _)
    · exact Core.load_eq (Core.maps_of_layout hl (suits.mapped hpos))
  obtain ⟨source, hsource⟩ : ∃ source, x.core.load c.src buffer.length = source := ⟨_, rfl⟩
  have hlen : buffer.length = source.length := by rw [← hsource, Core.length_load]
  have hheld : x.core.contents.slice c.src.toNat source.length = source := by
    rw [← hlen, ← hload x ready.layout, hsource]
  have hrun := run_of_wp (yields_read (r := { image, regs }) hlen (hlen ▸ whole) rfl ready
    (hlen ▸ suits) hheld unused exits ⟨rfl, undisturbed⟩ patient) notes
  obtain ⟨res, hres⟩ : ∃ res, ((e.read (A := simCore) patience buffer).run
    ⟨{ image, regs }, false⟩).run Sim.target ManualHost.host ⟨x, y, notes⟩ = res := ⟨_, rfl⟩
  rw [hres] at hrun ⊢
  obtain ⟨⟨⟨outcome, buffer'⟩, runner, busy⟩, x', y', notes'⟩ := res
  obtain ⟨⟨stats, rfl, hbytes, hwraps⟩, rfl, hstate, rfl, hkept, hl, hbps⟩ := hrun
  refine ⟨stats, runner, x', y', notes', ?_, ?_, ?_, ?_, hstate, hbps⟩
  · rw [hsource]
  · rw [hlen]
    exact hbytes
  · rw [hwraps, ← hlen, Ring.toNat_rounds_of_word (suits.total ▸ c.total.isLt)]
    rfl
  · rw [hload x' hl, hsource, hlen]
    exact hkept

/-- A producer of eight bytes, which go around the ring once. -/
def eightBytes : Producer where
  ring := ramRing.view
  src := 0x20002000
  total := 8
  rate := 4
  exit := 0x20001100

theorem read_delivers_eight :
    ∃ stats runner x' y' notes',
      (((⟨ramRing, {}⟩ : Engine).read (A := simCore) 1 [1, 2, 3, 4, 5, 6, 7, 8]).run
        ⟨{ image := plainImage, regs := [] }, false⟩).run Sim.target ManualHost.host
        ⟨waiting (.producer eightBytes), {}, #[]⟩ =
          (((.finished stats, (waiting (.producer eightBytes)).core.load 0x20002000 8),
            ⟨runner, false⟩), ⟨x', y', notes'⟩) ∧
      stats.bytes = 8 ∧ (stats.wraps : Nat) = 1 ∧
      x'.core.load 0x20002000 8 = (waiting (.producer eightBytes)).core.load 0x20002000 8 ∧
      runner.state = .completed ∧ x'.control.breakpoints = [] := by
  have suits : eightBytes.Suits ramRing 8 :=
    ⟨rfl, rfl, by decide, rfl, fun _ => fresh_covers_ram (by decide) (by decide),
      fun _ => Or.inr (by decide)⟩
  exact read_delivers ⟨ramRing, {}⟩ eightBytes [1, 2, 3, 4, 5, 6, 7, 8]
    (waiting (.producer eightBytes)) {} #[] 1 (by decide) rfl (ready_waiting _) suits rfl rfl rfl
    (by decide)

end Engine

end DebugLink
