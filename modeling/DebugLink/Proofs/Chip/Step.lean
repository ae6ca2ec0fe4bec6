import DebugLink.Proofs.Chip.Loader
import DebugLink.Proofs.Play

/-!
# A look at the chip

Reads and polls let the loader work for one burst first, writes do not.  `looked` is the chip
behind such a look.

While it runs, the chip is `Working`; afterwards it `Rests` with everything programmed, or it has
`Aborted`.  `Working.look` is one look, and `Working.handOver` what the host does in between.  A
breakpoint at the entry halts the core in between without an end to the loader: that is why the
state of a working chip need not be running.
-/

namespace DebugLink.Chip

open Environment Intake

variable {α η : Type} {h : Host η} {x : Chip} {y : η} {a : Word} {n : Nat}

/-- On the chip and a host, `d` ends in `Q`. -/
abbrev Yields (h : Host η) (d : Dialogue cortexM α) (Q : α → Chip × η → Prop) (w : Chip × η) :
    Prop :=
  Plays Chip.target h d Q w

/-- The chip behind a look at it. -/
def looked (x : Chip) : Chip :=
  x.step.chip

/-- The chip behind a write. -/
def wrote (x : Chip) (a : Word) (data : List UInt8) : Chip :=
  ⟨x.store.write a.toNat data, x.control⟩

/-- The loader that a look finds at work. -/
def found (x : Chip) : Option Loader :=
  match x.control.loader with
  | some l => some l
  | none => (trap x.store x.control.regs).1

/-! ## Accesses -/

/-- A core that does not run does no work when it is looked at. -/
theorem looked_idle (hs : x.control.state ≠ .running) : x.looked = x := by
  obtain ⟨store, k⟩ := x
  show (step ⟨store, k⟩).chip = _
  rw [step, if_neg hs]

/-- A read lets the loader work first, and then gives what is in memory. -/
theorem play_read {bytes : Bytes n} (hload : x.looked.store.load? a.toNat n = some bytes) :
    play Chip.target h (.call (.read a n)) (x, y) = (.ok bytes, (x.looked, y)) := by
  have hstep : (if x.control.state = .running then x.step else ⟨false, x, []⟩).chip = x.looked := by
    split
    · rfl
    · next hs => exact (looked_idle hs).symm
  simp only [play, Chip.target, perform]
  rw [hstep, hload]

/-- So does a poll, which gives the state it ends in. -/
theorem play_poll :
    play Chip.target h (.call .poll) (x, y) = (.ok x.looked.control.state, (x.looked, y)) :=
  rfl

/-- A write to RAM does not let it work. -/
theorem play_write {data : List UInt8} (hc : x.store.ram.Covers a.toNat data.length) :
    play Chip.target h (.call (.write a data)) (x, y) = (.ok (), (x.wrote a data, y)) := by
  have hw : x.store.writable a.toNat data.length = true := decide_eq_true hc
  simp only [play, Chip.target, perform]
  rw [if_pos hw]
  rfl

/-- What was written to RAM is there. -/
theorem inRam_wrote {data : List UInt8} (hc : x.store.ram.Covers a.toNat data.length) :
    (x.wrote a data).store.inRam = x.store.inRam.store a.toNat data :=
  Store.inRam_write hc

/-! ## One burst -/

/-- After a burst the core stops if it stands at a breakpoint, and runs on if not. -/
theorem settle_chip (store : Store) (k : Control) (notes : List Note) :
    (settle store k notes).chip =
      ⟨store, { k with
        state := if k.regs.get .pc ∈ k.breakpoints then .halted else k.state }⟩ := by
  rw [settle]
  simp only [List.contains_iff_mem]
  split <;> rfl

/-- The registers behind a burst that goes on. -/
def Control.working (k : Control) (l : Loader) : Control :=
  { k with
    regs := (k.regs.set (.gpr 1) l.count).set (.gpr 4) l.dest
    loader := some l }

/-- At work, the loader stays where it is. -/
theorem Control.working_pc (k : Control) (l : Loader) :
    (k.working l).regs.get .pc = k.regs.get .pc := by
  rw [working, RegisterFile.get_set_of_ne _ _ (by decide),
    RegisterFile.get_set_of_ne _ _ (by decide)]

/-- The registers behind the last burst. -/
def Control.exited (k : Control) (l : Loader) (status : Word) : Control :=
  { k with
    regs := (k.regs.set (.gpr 0) status).set .pc l.exit
    loader := none }

/-- A look at a chip whose loader is at work. -/
theorem looked_eq {l : Loader} (hs : x.control.state = .running) (hf : x.found = some l) :
    ∃ notes, x.looked = (settle (l.burst burstLength x.store).store
      (match (l.burst burstLength x.store).status with
        | some status => x.control.exited (l.burst burstLength x.store).loader status
        | none => x.control.working (l.burst burstLength x.store).loader) notes).chip := by
  obtain ⟨store, k⟩ := x
  have hs : k.state = .running := hs
  cases hk : k.loader with
  | some l' =>
      obtain rfl : l' = l := by
        rw [found, hk] at hf
        exact Option.some.inj hf
      simp only [looked, step, if_pos hs, hk]
      rcases l'.burst burstLength store with ⟨_ | status, l', s', more⟩ <;> exact ⟨_, rfl⟩
  | none =>
      have hf : (trap store k.regs).1 = some l := by
        rw [found, hk] at hf
        exact hf
      simp only [looked, step, if_pos hs, hk, hf]
      rcases l.burst burstLength store with ⟨_ | status, l', s', more⟩ <;> exact ⟨_, rfl⟩

/-! ## Phases of a run -/

namespace Job

/-- The loader has left with a status. -/
structure Exited (j : Job) (bps : List Word) (status : Word) (x : Chip) : Prop where
  state : x.control.state = .halted
  pc : x.control.regs.get .pc = j.exit
  status : x.control.regs.get (.gpr 0) = status
  breakpoints : x.control.breakpoints = bps

/-- The loader is at work. -/
structure Working (j : Job) (bps : List Word) (n : Nat) (w : Intake) (x : Chip) : Prop where
  holds : j.Holds n w x.store
  state : x.control.state = .running ∨ x.control.state = .halted ∧ j.code ∈ bps
  pc : x.control.regs.get .pc = j.code
  breakpoints : x.control.breakpoints = bps
  loader : x.found = some (j.loader w.consumed.length)

/-- The loader has programmed all that it counted. -/
structure Rests (j : Job) (bps : List Word) (n : Nat) (w : Intake) (x : Chip) : Prop where
  holds : j.Holds n w x.store
  all : w.consumed.length = 2 * j.total
  exited : j.Exited bps 0 x

/-- The loader has given up. -/
structure Aborted (j : Job) (bps : List Word) (x : Chip) : Prop where
  failed : j.Failed x.store
  exited : j.Exited bps programmingError x

variable {j : Job} {bps : List Word} {w : Intake}

/-- A core that has stopped does no work. -/
theorem Exited.looked {status : Word} (hx : j.Exited bps status x) : x.looked = x :=
  looked_idle (by rw [hx.state]; decide)

/-- The last burst takes the core to the exit point, where a breakpoint is set. -/
theorem exited_of_last (s : Store) {k : Control} {l : Loader} (status : Word) (notes : List Note)
    (hb : k.breakpoints = bps) (hl : l.exit = j.exit) (hexit : j.exit ∈ bps) :
    (settle s (k.exited l status) notes).chip.store = s ∧
      j.Exited bps status (settle s (k.exited l status) notes).chip := by
  have hpc : (k.exited l status).regs.get .pc = j.exit :=
    (RegisterFile.get_set_self _ _ _).trans hl
  have hset : (k.exited l status).regs.get .pc ∈ (k.exited l status).breakpoints := by
    rw [hpc]
    exact hb.symm ▸ hexit
  rw [settle_chip, if_pos hset]
  refine ⟨rfl, rfl, hpc, ?_, hb⟩
  exact (RegisterFile.get_set_of_ne _ _ (by decide)).trans (RegisterFile.get_set_self _ _ _)

/-- A look at the chip while the loader is at work. -/
theorem Working.look (hx : j.Working bps n w x) (hexit : j.exit ∈ bps) :
    (∃ w', j.Working bps n w' x.looked ∧ w.consumed.length ≤ w'.consumed.length ∧
      (w'.consumed.length = w.consumed.length + 2 * burstLength ∨
        (w'.consumed.length = n ∧ n < 2 * j.total) ∨ j.code ∈ bps)) ∨
    (∃ w', j.Rests bps n w' x.looked ∧ 2 * j.total < w.consumed.length + 2 * burstLength) ∨
    j.Aborted bps x.looked ∧ 2 * j.room < w.consumed.length + 2 * burstLength := by
  rcases hx.state with hrun | ⟨hhalt, hstuck⟩
  · obtain ⟨notes, hlooked⟩ := looked_eq hrun hx.loader
    have hends := hx.holds.burst burstLength
    rw [hlooked]
    generalize Loader.burst burstLength _ x.store = b at hends ⊢
    cases hends with
    | @goesOn w' s _ h grows works =>
        rw [settle_chip]
        refine .inl ⟨w', ⟨?_, ?_, ?_, ?_, ?_⟩, grows,
          works.elim .inl fun hn => .inr (.inl ⟨hn.1, hn.1 ▸ hn.2⟩)⟩
        · exact h
        · show (if _ ∈ x.control.breakpoints then _ else x.control.state) = _ ∨
            (if _ ∈ x.control.breakpoints then _ else x.control.state) = _ ∧ _
          rw [Control.working_pc, hx.pc, hx.breakpoints]
          split
          · next hmem => exact .inr ⟨rfl, hmem⟩
          · exact .inl hrun
        · exact (Control.working_pc _ _).trans hx.pc
        · exact hx.breakpoints
        · rfl
    | @done w' s _ h all early =>
        have hl : (j.loader w'.consumed.length).exit = j.exit := rfl
        obtain ⟨hstore, hexited⟩ := exited_of_last s 0 notes hx.breakpoints hl hexit
        exact .inr (.inl ⟨w', ⟨hstore.symm ▸ h, all, hexited⟩, early⟩)
    | @failed l s _ h exit early =>
        obtain ⟨hstore, hexited⟩ :=
          exited_of_last s programmingError notes hx.breakpoints exit hexit
        exact .inr (.inr ⟨⟨hstore.symm ▸ h, hexited⟩, early⟩)
  · have hsame : x.looked = x := looked_idle (by rw [hhalt]; decide)
    rw [hsame]
    exact .inl ⟨w, hx, Nat.le_refl _, .inr (.inr hstuck)⟩

/-! ## What the host does in between -/

/-- The host may write a piece of `len` bytes. -/
structure Piece (j : Job) (w : Intake) (n len : Nat) : Prop where
  room : n + len + j.ring.block ≤ w.consumed.length + j.ring.capacity
  straight : j.ring.place n + len ≤ j.ring.fifoEnd
  there : n + len ≤ j.data.length
  parity : (n + len) % 2 = 0 ∨ n + len = j.data.length

/-- A piece is as long as it is meant to be: the data does not end before. -/
theorem Piece.length_eq {len : Nat} (hp : j.Piece w n len) :
    ((j.data.drop n).take len).length = len := by
  have hthere := hp.there
  rw [List.length_take, List.length_drop]
  omega

/-- The chip when the piece and the pointer behind it are written. -/
def handed (j : Job) (x : Chip) (a wpPlace : Word) (n len : Nat) : Chip :=
  (x.wrote a ((j.data.drop n).take len)).wrote wpPlace
    (Endian.little.encode 4 (j.ring.place (n + len)))

/-- A piece and the pointer behind it are data that the loader has yet to take. -/
theorem Holds.handOver {len : Nat} {wpPlace : Word} (hx : j.Holds n w x.store)
    (hp : j.Piece w n len) (ha : a.toNat = j.ring.place n) (hwp : wpPlace.toNat = j.ring.wpAddr) :
    ∃ w', j.Holds (n + len) w' (j.handed x a wpPlace n len).store ∧ w'.consumed = w.consumed := by
  have hlen := hp.length_eq
  have hend := hp.straight
  have hacked : w.acked = w.consumed.length := by rw [acked, hx.settled, Nat.sub_zero]
  have hw := (({ hx.knows with acked := Nat.le_of_eq hacked.symm } :
    Engine.At j.ring .little j.data n n w.consumed.length w).piece hp.room hend hp.there).pointer
  rw [Intake.written_piece, Intake.written_pointer] at hw
  have hlaid := hx.laid.write a.toNat ((j.data.drop n).take len)
  have hpiece : x.store.ram.Covers a.toNat ((j.data.drop n).take len).length := by
    have hlow := j.ring.fifoStart_le_place n
    have hst := j.ring.fifoStart_eq
    have hstart : j.ring.wpAddr = j.ring.start := rfl
    exact covers_ring (j := j) hx.laid (by omega) (by omega)
  refine ⟨_, ⟨{ hw with acked := Nat.zero_le _ }, hx.settled, ?_, hlaid.write _ _, ?_, hx.whole,
    hx.within, hp.parity⟩, rfl⟩
  · show ((x.store.write a.toNat _).write wpPlace.toNat _).inRam = _
    rw [Store.inRam_write (by rw [Endian.length_encode, hwp]; exact covers_wpAddr hlaid),
      Store.inRam_write hpiece, hx.memory, ha, hwp]
  · show ((x.store.write a.toNat _).write wpPlace.toNat _).flash = _
    rw [Store.write_flash, Store.write_flash]
    exact hx.flash

/-- The loader is found where it was, as its code lies outside of the ring. -/
theorem found_wrote {data : List UInt8} (hpc : x.control.regs.get .pc = j.code)
    (hl : x.store.Laid) (ha : j.ring.start ≤ a.toNat)
    (hk : a.toNat + data.length ≤ j.ring.fifoEnd) : (x.wrote a data).found = x.found := by
  have hlow := j.code_low
  have hhigh := j.code_high
  have hapart := j.apart
  have hstub : loaderStub.length = 12 := rfl
  have hcode : x.store.ram.Covers j.code.toNat 8 := hl.covers_ram.mpr ⟨by omega, by omega⟩
  have hload := Store.load?_write_of_disjoint (covers_ring (j := j) hl ha hk) hcode (by omega)
  simp only [found, trap, wrote, hpc, hload]

/-- Handing over a piece does not disturb a loader at work. -/
theorem Working.handOver {len : Nat} {wpPlace : Word} (hx : j.Working bps n w x)
    (hp : j.Piece w n len) (ha : a.toNat = j.ring.place n) (hwp : wpPlace.toNat = j.ring.wpAddr) :
    ∃ w', j.Working bps (n + len) w' (j.handed x a wpPlace n len) ∧
      w'.consumed = w.consumed := by
  obtain ⟨w', hw', hsame⟩ := hx.holds.handOver hp ha hwp
  have hlen := hp.length_eq
  have hend := hp.straight
  have hlow := j.ring.fifoStart_le_place n
  have hst := j.ring.fifoStart_eq
  have hlt := j.ring.fifoStart_lt
  have hstart : j.ring.wpAddr = j.ring.start := rfl
  refine ⟨w', ⟨hw', hx.state, hx.pc, hx.breakpoints, ?_⟩, hsame⟩
  rw [handed, found_wrote (j := j) (x := x.wrote a _) hx.pc (hx.holds.laid.write _ _) (by omega)
      (by rw [Endian.length_encode]; omega),
    found_wrote hx.pc hx.holds.laid (by omega) (by omega), hx.loader, hsame]

/-- Nor one that waits for data. -/
theorem Rests.handOver {len : Nat} {wpPlace : Word} (hx : j.Rests bps n w x)
    (hp : j.Piece w n len) (ha : a.toNat = j.ring.place n) (hwp : wpPlace.toNat = j.ring.wpAddr) :
    ∃ w', j.Rests bps (n + len) w' (j.handed x a wpPlace n len) ∧ w'.consumed = w.consumed := by
  obtain ⟨w', hw', hsame⟩ := hx.holds.handOver hp ha hwp
  exact ⟨w', ⟨hw', by rw [hsame, hx.all], hx.exited.state, hx.exited.pc, hx.exited.status,
    hx.exited.breakpoints⟩, hsame⟩

end Job

end DebugLink.Chip
