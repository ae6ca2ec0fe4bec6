import DebugLink.Proofs.Chip.Transfer

/-!
# Writing to the flash loader

`k` halfwords can be programmed from the destination on before one that cannot (`Store.blank`).
If that is all of them, the write succeeds and the data is in flash; otherwise it fails, and flash
holds the first `k` halfwords of the data and is as before everywhere else (`Programs`).  Which of
the two comes about is decided by FLASH ALONE: the size of the ring, the bursts of the loader and
the pieces of the host make no difference (`write_programs`).

The final wait has a deadline.  What is left fits into the fifo, and the loader programs a burst
in each millisecond; a clock that is so close to its end that the deadline comes before that
makes a write fail that did everything (`not_write_programs_late`).
-/

namespace DebugLink

open Environment

/-- The host does not want to stop. -/
theorem ManualHost.calm {t : Nat} : ManualHost.host.Calm True (Quiet t) where
  keepAlive hy := ⟨hy.now, hy.shutdown⟩
  shutdownPending hy := hy
  undisturbed _ _ hy := by
    simp only [ManualHost.host, ManualHost.perform, hy.shutdown, Option.any_none]
  sleep h := absurd trivial h

namespace Chip

/-! ## Where everything lies -/

/-- The loader's code lies at `code`, and apart from it there is room for a ring in `area`. -/
structure Staged (area : Area 32) (ring : Ring) (code : Word) (x : Chip) : Prop where
  laid : x.store.Laid
  stub : x.store.ram.load? code.toNat loaderStub.length = some ⟨loaderStub, rfl⟩
  ring : Ring.ofArea? area 2 = .ok ring
  /-- So has every area that is handed out: its size is one of whole words. -/
  whole : area.size % 2 = 0
  low : ramBase ≤ area.address.toNat
  high : area.address.toNat + area.size ≤ ramBase + ramSize
  apart : code.toNat + loaderStub.length ≤ area.address.toNat ∨
    area.address.toNat + area.size ≤ code.toNat

namespace Staged

variable {area : Area 32} {ring : Ring} {code : Word} {x : Chip}

/-- Writing `data` to `dest` through that ring. -/
def job (hx : Staged area ring code x) (dest : Word) (data : List UInt8) : Job where
  ring
  data
  code
  dest
  before := x.store
  laid := hx.laid
  block := (Ring.eq_of_ofArea? hx.ring).2.2
  even := (Ring.eq_of_ofArea? hx.ring).2.1 ▸ hx.whole
  low := (Ring.eq_of_ofArea? hx.ring).1 ▸ hx.low
  high := by
    obtain ⟨hstart, hsize, -⟩ := Ring.eq_of_ofArea? hx.ring
    rw [Ring.fifoEnd, hstart, hsize]
    exact hx.high
  code_low := (hx.laid.covers_ram.mp (Region.covers_of_load? hx.stub)).1
  code_high := (hx.laid.covers_ram.mp (Region.covers_of_load? hx.stub)).2
  apart := by
    obtain ⟨hstart, hsize, -⟩ := Ring.eq_of_ofArea? hx.ring
    rw [Ring.fifoEnd, hstart, hsize]
    exact hx.apart

/-- A chip that is staged and halted is poised for the job. -/
theorem poised (hx : Staged area ring code x) (halted : x.control.state = .halted) (dest : Word)
    (data : List UInt8) : (hx.job dest data).Poised x where
  state := halted
  laid := hx.laid
  flash := rfl
  stub := hx.stub

/-- That is so once the code has been put there. -/
theorem of_wrote (laid : x.store.Laid) (hcode : ramBase ≤ code.toNat)
    (hend : code.toNat + loaderStub.length ≤ ramBase + ramSize)
    (hring : Ring.ofArea? area 2 = .ok ring) (hwhole : area.size % 2 = 0)
    (hlow : ramBase ≤ area.address.toNat)
    (hhigh : area.address.toNat + area.size ≤ ramBase + ramSize)
    (hapart : code.toNat + loaderStub.length ≤ area.address.toNat ∨
      area.address.toNat + area.size ≤ code.toNat) :
    Staged area ring code (x.wrote code loaderStub) where
  laid := laid.write _ _
  stub := by
    have hc : x.store.ram.Covers code.toNat loaderStub.length :=
      laid.covers_ram.mpr ⟨hcode, hend⟩
    show (x.store.write _ _).ram.load? _ _ = _
    rw [Store.write_eq hc]
    exact Region.load?_store_self hc
  ring := hring
  whole := hwhole
  low := hlow
  high := hhigh
  apart := hapart

/-- There is room for as many halfwords as are blank in a row. -/
theorem room_eq (hx : Staged area ring code x) (dest : Word) {data : List UInt8}
    (short : data.length < 2 ^ 33) :
    (hx.job dest data).room = x.store.blank dest (data.length / 2) := by
  rw [Job.room, Job.total_eq _ short]
  rfl

/-- Without breakpoints nothing keeps the loader from its work. -/
theorem firm (hx : Staged area ring code x) (unbroken : x.control.breakpoints = []) {dest : Word}
    {data : List UInt8} (short : data.length < 2 ^ 33) :
    (hx.job dest data).Firm (x.control.breakpoints ++ [(hx.job dest data).exit]) where
  free := by
    rw [unbroken]
    exact fun hmem => (hx.job dest data).code_ne_exit (List.mem_singleton.mp hmem)
  counted := (hx.job dest data).total_eq short

end Staged

/-! ## The final wait -/

/-- How many whole bursts there are in `n` bytes. -/
def bursts (n : Nat) : Nat :=
  n / (2 * burstLength)

theorem bursts_eq (n : Nat) : bursts n = n / 128 := rfl

namespace Job

variable {j : Job} {bps : List Word} {x : Chip} {y : ManualHost} {t : Nat}

/-- The wait.  Each look at the chip lets the loader do a whole burst; a clock that has a
    millisecond left for each burst that may come does not reach the deadline. -/
theorem yields_watch (hfirm : j.Firm bps) (hexit : j.exit ∈ bps) {deadline : Nat}
    (hdeadline : deadline < 2 ^ 64) (patience : Nat) :
    ∀ (t : Nat) (w : Intake) (x : Chip) (y : ManualHost),
      j.Alive bps j.data.length w x → Quiet t y →
      bursts (j.data.length - w.consumed.length) < patience →
      t + bursts (j.data.length - w.consumed.length) ≤ deadline →
      Yields ManualHost.host (Runner.watch (A := cortexM) deadline 1 patience)
        (j.Ended bps True) (x, y) := by
  have hburst : burstLength = 64 := rfl
  have htotal := j.total_le
  simp only [bursts_eq]
  induction patience with
  | zero => exact fun _ _ _ _ _ _ hpatience _ => absurd hpatience (Nat.not_lt_zero _)
  | succ patience ih =>
      intro t w x y hx hy hpatience htime
      rcases hx with hx | hx
      · rw [Runner.watch]
        refine plays_ask play_poll ?_
        rcases hx.look hexit with ⟨w', hx', -, hworks⟩ | ⟨w', hx', -⟩ | ⟨hx', -⟩
        · obtain ⟨hle, -, -⟩ := hx'.holds.knows.window hx'.holds.settled
          have hgrow : w'.consumed.length = w.consumed.length + 2 * burstLength := by
            rcases hworks with hall | ⟨-, hall⟩ | hstuck
            · exact hall
            · omega
            · exact absurd hstuck hfirm.free
          have hstate : x.looked.control.state = .running :=
            hx'.state.resolve_right fun hstuck => hfirm.free hstuck.2
          have hnow : ¬ deadline ≤ y.now.toNat := by
            rw [hy.now]
            omega
          rw [hstate]
          refine wp_played ?_
          show Yields _ (if deadline ≤ y.now.toNat then _ else _ : Dialogue cortexM Runner.Watch)
            _ _
          rw [if_neg hnow]
          -- the clock goes on by one, and nobody shuts the host down
          refine wp_played (wp_played (wp_played ?_))
          simp only [play, ManualHost.host, ManualHost.perform, hy.shutdown, Option.any_none]
          refine ih (t + 1) w' _ _ (.inl hx') ⟨?_, rfl⟩ (by omega) (by omega)
          show (y.now + UInt64.ofNat 1).toNat = t + 1
          rw [UInt64.toNat_add, hy.now, show (UInt64.ofNat 1).toNat = 1 from rfl]
          exact Nat.mod_eq_of_lt (by omega)
        · rw [hx'.exited.state]
          exact .inl ⟨rfl, .inl ⟨w', hx'⟩⟩
        · rw [hx'.exited.state]
          exact .inl ⟨rfl, .inr hx'⟩
      · exact yields_watch_exited hx.exited (.inl ⟨rfl, .inl ⟨w, hx⟩⟩)

/-- Ten seconds are enough for what is left in a ring, as it lies in RAM. -/
theorem le_deadline {n c : Nat} (hn : n ≤ bursts c) (hc : c ≤ ramSize)
    (htime : t + bursts c < 2 ^ 64) : t + n ≤ min (t + 10000) 0xffffffffffffffff := by
  have hram : ramSize = 0x5000 := rfl
  simp only [bursts_eq] at hn htime
  omega

/-- A deadline is a word of the clock. -/
theorem deadline_lt (n : Nat) : min n 0xffffffffffffffff < 2 ^ 64 :=
  Nat.lt_of_le_of_lt (Nat.min_le_right _ _) (by decide)

/-- What is left after the loop fits into the fifo. -/
theorem yields_finalWatch (hfirm : j.Firm bps) (hexit : j.exit ∈ bps) {patience : Nat}
    (hx : j.Live bps j.data.length x) (hy : Quiet t y)
    (htime : t + bursts (j.ring.capacity - 2) < 2 ^ 64)
    (hpatience : bursts (j.ring.capacity - 2) < patience + 1) :
    j.FinalWatch bps True ManualHost.host (patience + 1) x y := by
  rcases hx with ⟨w, hx⟩ | hx
  · obtain ⟨-, hwindow, -⟩ := hx.holds.knows.window hx.holds.settled
    have hblock := j.block
    have hsize : j.ring.capacity - 2 ≤ ramSize := by
      have hlow := j.low
      have hhigh := j.high
      rw [Ring.fifoEnd] at hhigh
      rw [Ring.capacity]
      omega
    have hleft : bursts (j.data.length - w.consumed.length) ≤ bursts (j.ring.capacity - 2) :=
      Nat.div_le_div_right (by omega)
    obtain rfl : y.now.toNat = t := hy.now
    exact yields_watch hfirm hexit (deadline_lt _) _ _ w x y hx hy
      (Nat.lt_of_le_of_lt hleft hpatience) (le_deadline hleft hsize htime)
  · exact yields_watch_exited hx.exited (.inl ⟨rfl, .inr hx⟩)

end Job

/-! ## The whole write -/

/-- What a write of `data` to `dest` comes to: flash allows for some of the halfwords, and these
    are programmed.  If they are all that there are the write succeeds, and otherwise it fails. -/
structure Decided (dest : Word) (data : List UInt8) (x : Chip) (outcome : Outcome)
    (r : Runner cortexM) (x' : Chip) : Prop where
  flash : x'.store.flash =
    x.store.flash.store dest.toNat (data.take (2 * x.store.blank dest (data.length / 2)))
  success : x.store.blank dest (data.length / 2) = data.length / 2 →
    (∃ stats, outcome = .finished stats ∧ stats.bytes = data.length) ∧ Job.Collected 0 r ∧
      (data ≠ [] → x'.peek? dest.toNat data.length = some data)
  failure : x.store.blank dest (data.length / 2) < data.length / 2 →
    (∃ offset, outcome = .failed { offset, error := .operationFailed }) ∧
      Job.Collected programmingError r

namespace Job

variable {j : Job}

/-- All of the data can be read from flash once it is there. -/
theorem Programmed.peek {x : Chip} (hx : j.Programmed x) (hall : 2 * j.total = j.data.length)
    (hne : j.data ≠ []) : x.peek? j.dest.toNat j.data.length = some j.data := by
  have hfits := hx.fits
  have hflash := hx.flash
  rw [hall, List.take_length] at hflash
  have hc : j.before.flash.Covers j.dest.toNat j.data.length :=
    covers_dest (List.length_pos_iff.mpr hne) (by omega)
  have hload := Region.load?_store_self hc
  rw [← hflash] at hload
  have hc' : x.store.flash.Covers j.dest.toNat j.data.length := Region.covers_of_load? hload
  rw [peek?, Store.load?_flash hx.laid hc', hload]
  rfl

/-- A write that ends decides what became of the data. -/
theorem WriteEnds.decided {res : Outcome × Held cortexM} {x : Chip} {v : Chip × ManualHost}
    (h : j.WriteEnds True res v) (hx : x.store = j.before) (hall : 2 * j.total = j.data.length) :
    res.2.busy = false ∧ Decided j.dest j.data x res.1 res.2.runner v.1 := by
  have htotal : j.data.length / 2 = j.total := by omega
  have hroom : x.store.blank j.dest (j.data.length / 2) = j.room := by rw [hx, htotal]; rfl
  have hle := j.room_le
  rcases h with ⟨stats, hres, hbytes, hbusy, hr, hv⟩ | ⟨offset, hres, hbusy, hr, hv⟩ | ⟨hquits, -⟩
  · have hfits := hv.fits
    refine ⟨hbusy, ?_, fun _ => ⟨⟨stats, hres, hbytes⟩, hr, hv.peek hall⟩, fun hlt => ?_⟩
    · rw [hroom, hx, hv.flash, Nat.le_antisymm hle hfits]
    · omega
  · have hshort := hv.short
    refine ⟨hbusy, ?_, fun heq => ?_, fun _ => ⟨⟨offset, hres⟩, hr⟩⟩
    · rw [hroom, hx, hv.flash]
    · omega
  · exact absurd trivial hquits

end Job

/-- With a clock that goes on, nothing but flash can make the write fail. -/
theorem Staged.yields_write_quiet {area : Area 32} {ring : Ring} {code : Word} {x : Chip}
    {y : ManualHost} {t : Nat} (hx : Staged area ring code x)
    (halted : x.control.state = .halted) (unbroken : x.control.breakpoints = []) (dest : Word)
    {data : List UInt8} (short : data.length < 2 ^ 33) (hy : Quiet t y)
    (time : t + bursts (ring.capacity - 2) < 2 ^ 64) (patience : Nat)
    (patient : bursts (ring.capacity - 2) < patience + 1) :
    Yields ManualHost.host
      (((hx.job dest data).engine.write (A := cortexM) (patience + 1) data).run
        ⟨(hx.job dest data).runner, false⟩) ((hx.job dest data).WriteEnds True) (x, y) := by
  have hfirm : (hx.job dest data).Firm _ := hx.firm unbroken short
  have hexit : (hx.job dest data).exit ∈ x.control.breakpoints ++ [(hx.job dest data).exit] := by
    simp
  exact Job.yields_write ManualHost.calm (fun _ => hfirm)
    (fun x' y' hx' hy' => Job.yields_finalWatch hfirm hexit hx' hy' time patient)
    (hx.poised halted dest data) hy

/-- A write of `data` to `dest`, through `ring` and with the loader at `code`, is decided by
    flash. -/
def Programs (ring : Ring) (code dest : Word) (data : List UInt8) (x : Chip) (y : ManualHost)
    (notes : Array Note) (patience : Nat) : Prop :=
  ∃ runner outcome r x' y' notes',
    Runner.ofImage? (A := cortexM) (Demo.loaderImage code ring dest (data.length / 2)) =
      .ok runner ∧
    ((({ ring } : Engine).write (A := cortexM) patience data).run ⟨runner, false⟩).run
      Chip.target ManualHost.host ⟨x, y, notes⟩ = ((outcome, ⟨r, false⟩), ⟨x', y', notes'⟩) ∧
    Decided dest data x outcome r x'

/-- THE FLASH LOADER AGREES WITH THE HOST.  Whatever the ring, the data, the destination and the
    flash there: with a clock that has a millisecond left for each burst that the fifo holds, the
    write succeeds with everything in flash, or it fails at the first halfword that cannot be
    programmed, with everything before it in flash. -/
theorem write_programs {area : Area 32} {ring : Ring} {code : Word} {x : Chip} (dest : Word)
    (data : List UInt8) (y : ManualHost) (notes : Array Note) (patience : Nat)
    (staged : Staged area ring code x) (even : code.toNat % 2 = 0)
    (halted : x.control.state = .halted) (unbroken : x.control.breakpoints = [])
    (whole : data.length % 2 = 0) (short : data.length < 2 ^ 32)
    (undisturbed : y.shutdownAfter = none)
    (time : y.now.toNat + bursts (ring.capacity - 2) < 2 ^ 64)
    (patient : bursts (ring.capacity - 2) < patience) :
    Programs ring code dest data x y notes patience := by
  obtain ⟨patience, rfl⟩ : ∃ p, patience = p + 1 := Nat.exists_eq_add_one.mpr (by omega)
  have hshort : data.length < 2 ^ 33 := Nat.lt_trans short (by decide)
  have htotal : (staged.job dest data).total = data.length / 2 := Job.total_eq _ hshort
  have hall : 2 * (staged.job dest data).total = data.length := by omega
  have hrun := run_of_wp (staged.yields_write_quiet halted unbroken dest hshort
    ⟨rfl, undisturbed⟩ time patience patient) notes
  generalize hres : ((Engine.write _ _ _).run _).run Chip.target _ _ = res at hrun
  obtain ⟨⟨outcome, r, busy⟩, x', y', notes'⟩ := res
  obtain ⟨rfl, hdecided⟩ := hrun.decided rfl hall
  exact ⟨_, outcome, r, x', y', notes', (staged.job dest data).accepted even, hres, hdecided⟩

/-! ## A clock at its end -/

namespace Job

variable {η : Type} {h : Host η} {N : η → Prop} {j : Job} {bps : List Word} {w : Intake}
  {x : Chip} {y : η}

/-- A loader that has a whole burst to do is not seen at its exit by the first look. -/
theorem yields_watch_expired {deadline interval patience : Nat} {Q : Runner.Watch → Chip × η → Prop}
    (hfirm : j.Firm bps) (hexit : j.exit ∈ bps) (hx : j.Working bps j.data.length w x)
    (hfull : w.consumed.length + 2 * burstLength ≤ 2 * j.room)
    (hlate : deadline ≤ (h.perform .now y).1.toNat) (hn : ∀ x' y', Q .expired (x', y')) :
    Yields h (Runner.watch (A := cortexM) deadline interval (patience + 1)) Q (x, y) := by
  have hroom := j.room_le
  rw [Runner.watch]
  refine plays_ask play_poll ?_
  rcases hx.look hexit with ⟨w', hx', -, -⟩ | ⟨w', -, hearly⟩ | ⟨-, hearly⟩
  · have hstate : x.looked.control.state = .running :=
      hx'.state.resolve_right fun hstuck => hfirm.free hstuck.2
    rw [hstate]
    refine wp_played ?_
    show Yields _ (if deadline ≤ (h.perform .now y).1.toNat then _ else _ :
      Dialogue cortexM Runner.Watch) _ _
    rw [if_pos hlate]
    exact hn _ _
  · omega
  · omega

/-- Everything has been handed over, and nothing has been programmed yet. -/
def Brimming (j : Job) (bps : List Word) (N : η → Prop) (res : Except Error Unit × Progress)
    (v : Chip × η) : Prop :=
  res.1 = .ok () ∧ N v.2 ∧ ∃ w, j.Working bps j.data.length w v.1 ∧ w.consumed.length = 0

/-- Data of one burst is handed over before the loader programs any of it. -/
theorem yields_feedAll_burst (hh : h.Calm True N) (hexit : j.exit ∈ bps)
    (hlen : j.data.length = 2 * burstLength) (hroom : j.room = burstLength)
    (hcap : j.data.length + 2 ≤ j.ring.capacity) (hx : j.Working bps 0 w x) (hN : N y) :
    Yields h ((j.engine.feedAll (A := cortexM) j.data).run.run {})
      (j.Brimming bps N) (x, y) := by
  have hburst : burstLength = 64 := rfl
  have hrp := j.ring.rpAddr_eq
  have hst := j.ring.fifoStart_eq
  have hlt := j.ring.fifoStart_lt
  have hreach := j.ring.fifoEnd_lt
  have hend := j.ring.fifoEnd_eq
  have hblock := j.block
  have htotal := j.room_le
  obtain ⟨hnone, -, -⟩ := hx.holds.knows.window hx.holds.settled
  refine wp_seq (wp_lift (Engine.plays_address (show j.ring.wpAddr < 2 ^ 32 by omega)
    fun a ha => ?_))
  refine wp_seq (wp_lift (Engine.plays_address (show j.ring.rpAddr < 2 ^ 32 by omega)
    fun b hb => ?_))
  rcases hx.look hexit with ⟨w', hx', -, -⟩ | ⟨w', -, hearly⟩ | ⟨-, hearly⟩
  · obtain ⟨hnone', -, -⟩ := hx'.holds.knows.window hx'.holds.settled
    have hzero : w'.consumed.length = 0 := Nat.le_zero.mp hnone'
    -- the fifo is empty, but for the two bytes that stay unused
    have hspace : j.ring.writeSpace (j.ring.place 0) (j.ring.place w'.consumed.length) =
        j.ring.capacity - 2 := by
      rw [hzero, Ring.place_zero, Ring.writeSpace, if_neg (Nat.lt_irrefl _),
        if_neg (Nat.lt_irrefl _)]
      omega
    have hsome : j.ring.writeSpace (j.ring.place 0) (j.ring.place w'.consumed.length) ≠ 0 := by
      omega
    have hround : Yields h ((j.engine.feed (A := cortexM) a b (j.ring.place 0) (j.data.drop 0)
        0).run.run {}) (j.Brimming bps N) (x, y) := by
      refine yields_round (p := {}) (w := w') hh ha hb (show 0 < j.data.length by omega)
        (.inl hx') hN hsome (fun hquits => absurd trivial hquits)
        fun len p' w'' x' y' hlen' hp hp' hx'' hsame hN' => ?_
      have hlow := j.ring.aligned
      have hstart : j.ring.fifoStart = j.ring.start + 8 := rfl
      -- all of the data fits at once
      have hwhole : len = j.data.length := by
        have hmin : min (j.ring.capacity - 2) (j.data.length - 0) = j.data.length := by omega
        rw [show ({} : Progress).stats.bytes = 0 from rfl, hspace, hmin, hzero, Ring.place_zero,
          trimChunk] at hlen'
        rw [hlen']
        split <;> omega
      have hbytes : p'.stats.bytes = j.data.length := by
        rw [hp', hwhole]
        exact Nat.zero_add _
      rw [hbytes] at hx'' ⊢
      rw [List.drop_length, Engine.feed, dif_pos rfl]
      rcases hx'' with hx'' | hx''
      · exact ⟨rfl, hN', w'', hx'', by rw [hsame, hzero]⟩
      · have hall := hx''.all
        rw [hsame, hzero] at hall
        omega
    rwa [Ring.place_zero, List.drop_zero] at hround
  · omega
  · omega

/-- A clock that cannot go on makes the write fail, although the loader would do everything. -/
theorem yields_write_late (patience : Nat) {y : ManualHost}
    (hfirm : j.Firm (x.control.breakpoints ++ [j.exit])) (hlen : j.data.length = 2 * burstLength)
    (hroom : j.room = burstLength) (hcap : j.data.length + 2 ≤ j.ring.capacity) (hx : j.Poised x)
    (hy : Quiet 0xffffffffffffffff y) :
    Yields ManualHost.host
      ((j.engine.write (A := cortexM) (patience + 1) j.data).run ⟨j.runner, false⟩)
      (fun res _ => ∀ s, res.1 ≠ .finished s) (x, y) := by
  have hexit : j.exit ∈ x.control.breakpoints ++ [j.exit] := by simp
  refine wp_then (yields_begin hx fun r w x₁ hr hx₁ => ?_)
  refine wp_then (wp_liftOnly (wp_mono
    (yields_feedAll_burst ManualHost.calm hexit hlen hroom hcap hx₁ hy) ?_))
  rintro ⟨_, progress⟩ ⟨x₂, y₂⟩ ⟨rfl, hy₂, w₂, hx₂, hzero⟩
  have hnow : (ManualHost.host.perform .now y₂).1.toNat = 0xffffffffffffffff := hy₂.now
  refine yields_settle_astray hr
    (yields_watch_expired hfirm hexit hx₂ (by omega) ?_ fun _ _ => nofun)
  exact Nat.le_trans (Nat.min_le_right _ _) (Nat.le_of_eq hnow.symm)

end Job

/-- A burst's worth of data, which could all be programmed, and a clock that is at its end. -/
theorem Staged.not_programs_late {area : Area 32} {ring : Ring} {code dest : Word} {x : Chip}
    {data : List UInt8} {y : ManualHost} {notes : Array Note} {patience : Nat}
    (hx : Staged area ring code x) (even : code.toNat % 2 = 0)
    (halted : x.control.state = .halted) (unbroken : x.control.breakpoints = [])
    (hlen : data.length = 2 * burstLength) (hblank : x.store.blank dest burstLength = burstLength)
    (hcap : data.length + 2 ≤ ring.capacity) (hy : Quiet 0xffffffffffffffff y) :
    ¬ Programs ring code dest data x y notes (patience + 1) := by
  rintro ⟨runner, outcome, r, x', y', notes', hrunner, hrun, hdecided⟩
  have hhalf : data.length / 2 = burstLength := by omega
  obtain ⟨⟨stats, hfinished, -⟩, -⟩ := hdecided.success (by rw [hhalf]; exact hblank)
  -- but that is not how the write ends
  have hshort : data.length < 2 ^ 33 := by
    rw [hlen]
    decide
  have hfirm : (hx.job dest data).Firm _ := hx.firm unbroken hshort
  have hroom : (hx.job dest data).room = burstLength := by
    rw [hx.room_eq dest hshort, hhalf, hblank]
  obtain rfl := Except.ok.inj (hrunner.symm.trans ((hx.job dest data).accepted even))
  have hlate := run_of_wp (Job.yields_write_late patience hfirm hlen hroom hcap
    (hx.poised halted dest data) hy) notes
  exact hlate stats ((congrArg (fun res => res.1.1) hrun).trans hfinished)

/-- A chip that has never been used, with the loader's code at the start of its RAM. -/
def stocked : Chip :=
  fresh.wrote (BitVec.ofNat 32 ramBase) loaderStub

/-- An area behind the code. -/
def stockArea : Area 32 where
  id := ⟨0, 0, 0⟩
  address := 0x20000010
  size := 256

/-- The ring that fills it. -/
def stockRing : Ring where
  start := 0x20000010
  size := 256
  block := 2
  block_pow := rfl
  pointers_fit := by decide
  two_blocks := by decide
  aligned := rfl
  start_pos := by decide
  in_reach := by decide

/-- The memory of the chip is laid out as it should be. -/
theorem fresh_laid : fresh.store.Laid where
  ramBase := rfl
  ramSize := Array.size_replicate
  flashBase := rfl
  flashSize := Array.size_replicate

/-- The sample has an area, a ring in it, and its code in place. -/
theorem staged_stocked : Staged stockArea stockRing (BitVec.ofNat 32 ramBase) stocked := by
  rw [stocked]
  exact .of_wrote fresh_laid (by decide) (by decide) rfl rfl (by decide) (by decide)
    (.inl (by decide))

/-- All of its flash is erased. -/
theorem blank_stocked {n : Nat} (hn : 2 * n ≤ flashSize) :
    stocked.store.blank (BitVec.ofNat 32 flashBase) n = n := by
  have hbase : (BitVec.ofNat 32 flashBase).toNat = flashBase := rfl
  have hflash : stocked.store.flash = .filled flashBase flashSize 0xff := by
    rw [stocked, wrote, Store.write_flash]
    rfl
  refine Store.blank_filled hflash (Nat.le_of_eq hbase.symm) ?_
  rw [hbase]
  omega

/-- Four bytes, and flash enough for them. -/
theorem write_programs_four :
    Programs stockRing (BitVec.ofNat 32 ramBase) (BitVec.ofNat 32 flashBase) [1, 2, 3, 4] stocked {}
        #[] 2 ∧
      stocked.store.blank (BitVec.ofNat 32 flashBase) 2 = 2 :=
  ⟨write_programs (BitVec.ofNat 32 flashBase) [1, 2, 3, 4] {} #[] 2 staged_stocked (by decide) rfl
    rfl (by decide) (by decide) rfl (by decide) (by decide), blank_stocked (by decide)⟩

/-- The condition on the clock cannot be left out: a burst's worth of data, and a clock that is at
    its end. -/
theorem not_write_programs_late :
    ¬ ∀ (area : Area 32) (ring : Ring) (code : Word) (x : Chip) (dest : Word) (data : List UInt8)
        (y : ManualHost) (notes : Array Note) (patience : Nat),
      Staged area ring code x → code.toNat % 2 = 0 → x.control.state = .halted →
      x.control.breakpoints = [] → data.length % 2 = 0 → data.length < 2 ^ 32 →
      y.shutdownAfter = none →
      bursts (ring.capacity - 2) < patience →
      Programs ring code dest data x y notes patience := by
  intro hall
  obtain ⟨data, hdata⟩ : ∃ data : List UInt8, data.length = 2 * burstLength :=
    ⟨_, List.length_replicate (a := 0)⟩
  have hprograms := hall stockArea stockRing _ stocked (BitVec.ofNat 32 flashBase) data
    { now := 0xffffffffffffffff } #[] 2 staged_stocked (by decide) rfl rfl (by rw [hdata]; rfl)
    (by rw [hdata]; decide) rfl (by decide)
  exact staged_stocked.not_programs_late (by decide) rfl rfl hdata (blank_stocked (by decide))
    (by rw [hdata]; decide) ⟨rfl, rfl⟩ hprograms

end Chip

end DebugLink
