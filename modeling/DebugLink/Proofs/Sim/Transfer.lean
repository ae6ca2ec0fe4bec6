import DebugLink.Proofs.Ring
import DebugLink.Proofs.Sim.Launch
import DebugLink.Proofs.Sim.View
import DebugLink.Transfer.Read

/-!
# A transfer with the simulated target, apart from its loop

What both directions have in common: the ring lies in RAM, and a program waits for it (`Ready`).

* `yields_begin`: the ring is EMPTIED, and the program is at work (`Begun`).
* The rules in the middle are for the parts of one round.
* `yields_conclude`: a program that stops at the exit point, and has not zeroed its pointer, makes
  the transfer a success.
-/

namespace DebugLink

open Environment

/-- The ring lies in the RAM of the simulated target. -/
def Ring.InRam (r : Ring) : Prop :=
  Sim.ramBase ≤ r.start ∧ r.fifoEnd ≤ Sim.ramBase + Sim.ramSize

/-- The ring lies in RAM, and a program waits for it to be run without parameters. -/
structure Ready (ring : Ring) (image : simCore.Img) (program : Sim.Program) (x : Sim) : Prop where
  layout : x.core.memory.layout = Sim.fresh.core.memory.layout
  ram : ring.InRam
  waits : Sim.Waits image program x
  mem : image.mem = []
  regs : image.regs = []
  exit : image.exit ≠ 0

/-- The ring has been emptied, and the program is at work. -/
structure Begun (ring : Ring) (program : Sim.Program) (bps : List Sim.Word) (x x' : Sim) :
    Prop where
  contents : x'.core.contents =
    (x.core.contents.store ring.wpAddr (x.core.endian.encode 4 ring.fifoStart)).store ring.rpAddr
      (x.core.endian.encode 4 ring.fifoStart)
  layout : x'.core.memory.layout = x.core.memory.layout
  endian : x'.core.endian = x.core.endian
  status : x'.status = .running program bps

/-- The clock stands at `t`, and nobody shuts the host down. -/
structure Quiet (t : Nat) (y : ManualHost) : Prop where
  now : y.now.toNat = t
  shutdown : y.shutdownAfter = none

namespace Sim

/-- The target has a memory and a flash. -/
theorem fresh_layout :
    fresh.core.memory.layout = [(ramBase, ramSize), (flashBase, flashSize)] := by
  simp only [fresh, Memory.layout, Region.filled, List.map_cons, List.map_nil, Array.size_replicate]

/-- The memory is laid out as that of a fresh target. -/
theorem Core.maps_of_layout {c : Core} {a n : Nat}
    (hl : c.memory.layout = fresh.core.memory.layout)
    (hc : fresh.core.memory.covers a n = true) : c.Maps a n where
  apart := by
    rw [hl, fresh_layout]
    decide
  covers := (Memory.covers_congr hl).trans hc

/-- What is mapped lies below the end of RAM. -/
theorem le_of_fresh_covers {a n : Nat} (h : fresh.core.memory.covers a n = true) :
    a + n ≤ ramBase + ramSize := by
  have hflash : flashBase + flashSize ≤ ramBase + ramSize := by decide
  rcases Memory.covers_cons.mp h with h | h
  · exact (Region.covers_filled.mp h).2
  · rcases Memory.covers_cons.mp h with h | h
    · exact Nat.le_trans (Region.covers_filled.mp h).2 hflash
    · cases h

/-- Addresses in a mapped block do not wrap around. -/
theorem toNat_add_of_covers {a : Word} {n k : Nat} (h : fresh.core.memory.covers a.toNat n = true)
    (hk : k ≤ n) : (a + BitVec.ofNat 32 k).toNat = a.toNat + k := by
  have hlow := le_of_fresh_covers h
  have hbound : ramBase + ramSize < 2 ^ 32 := by decide
  rw [BitVec.toNat_add, BitVec.toNat_ofNat]
  omega

/-- What lies in the memory is mapped. -/
theorem fresh_covers_ram {a n : Nat} (ha : ramBase ≤ a) (hn : a + n ≤ ramBase + ramSize) :
    fresh.core.memory.covers a n = true :=
  Memory.covers_cons.mpr (Or.inl (Region.covers_filled.mpr ⟨ha, hn⟩))

end Sim

/-! ## The ring in memory -/

namespace Ring.InRam

variable {r : Ring} {c : Sim.Core} {a n k : Nat}

/-- All of the ring may be accessed. -/
theorem maps (h : r.InRam) (hl : c.memory.layout = Sim.fresh.core.memory.layout)
    (ha : r.start ≤ a) (hn : a + n ≤ r.fifoEnd) : c.Maps a n := by
  obtain ⟨hlow, hhigh⟩ := h
  exact Sim.Core.maps_of_layout hl (Sim.fresh_covers_ram (by omega) (by omega))

/-- So is the write pointer, ... -/
theorem maps_wpAddr (h : r.InRam) (hl : c.memory.layout = Sim.fresh.core.memory.layout)
    (ha : a = r.wpAddr) : c.Maps a 4 := by
  have hst := r.fifoStart_eq
  have hlt := r.fifoStart_lt
  exact h.maps hl (Nat.le_of_eq ha.symm) (by omega)

/-- ... and the read pointer. -/
theorem maps_rpAddr (h : r.InRam) (hl : c.memory.layout = Sim.fresh.core.memory.layout)
    (ha : a = r.rpAddr) : c.Maps a 4 := by
  have hrp := r.rpAddr_eq
  have hst := r.fifoStart_eq
  have hlt := r.fifoStart_lt
  exact h.maps hl (show r.wpAddr ≤ a by omega) (by omega)

/-- A piece of the stream that does not go around. -/
theorem maps_piece (h : r.InRam) (hl : c.memory.layout = Sim.fresh.core.memory.layout)
    (ha : a = r.place n) (hend : r.place n + k ≤ r.fifoEnd) : c.Maps a k := by
  have hst := r.fifoStart_eq
  have hlow := r.fifoStart_le_place n
  exact h.maps hl (show r.wpAddr ≤ a by omega) (by omega)

/-- One block behind the fifo, addresses are still words. -/
theorem spare (h : r.InRam) : r.fifoEnd + r.block < 0x100000000 := by
  have hram : Sim.ramBase + Sim.ramSize = 0x20040000 := rfl
  have htwo := r.two_blocks_le
  have hcap := r.fifoEnd_eq
  have hhigh := h.2
  omega

/-- The pointers, as a program on the target sees them. -/
theorem toNat_loadWord (h : r.InRam) (hl : c.memory.layout = Sim.fresh.core.memory.layout) :
    (c.loadWord r.view.wpAddr).toNat = c.contents.word c.endian r.wpAddr ∧
      (c.loadWord r.view.rpAddr).toNat = c.contents.word c.endian r.rpAddr := by
  constructor
  · rw [Sim.Core.loadWord_eq (h.maps_wpAddr hl r.toNat_view_wpAddr), toNat_view_wpAddr]
  · rw [Sim.Core.loadWord_eq (h.maps_rpAddr hl r.toNat_view_rpAddr), toNat_view_rpAddr]

end Ring.InRam

/-- Both pointers say that the ring is empty. -/
theorem Begun.words {r : Ring} {program : Sim.Program} {bps : List Sim.Word} {x x' : Sim}
    (h : Begun r program bps x x') :
    x'.core.contents.word x'.core.endian r.wpAddr = r.fifoStart ∧
      x'.core.contents.word x'.core.endian r.rpAddr = r.fifoStart := by
  have hrp := r.rpAddr_eq
  have hlt := r.fifoStart_lt
  have hreach := r.fifoEnd_lt
  rw [h.contents, h.endian]
  constructor
  · rw [Contents.word_store_of_disjoint _ (by rw [Endian.length_encode]; omega)]
    exact Contents.word_store_self _ _ _ (by omega)
  · exact Contents.word_store_self _ _ _ (by omega)

namespace Engine

open Sim

variable {ring : Ring} {image : simCore.Img} {program : Program} {x : Sim} {y : ManualHost}
  {h : Held simCore} {flow : Flow} {e : Engine} {p : Progress} {α : Type}

/-! ## The parts of a round -/

theorem yields_address {n : Nat} {Q : Except Error Word → Sim × ManualHost → Prop}
    {w : Sim × ManualHost} (hlt : n < 0x100000000) (hn : ∀ a : Word, a.toNat = n → Q (.ok a) w) :
    Yields (address (A := simCore) n).run Q w :=
  plays_address hlt hn

/-- A pointer word is written as it is told. -/
theorem yields_putPointer {place value : Nat} {Q : Except Error Unit → Sim × ManualHost → Prop}
    (hlt : place < 0x100000000) (hw : x.status.failWrites = false) (hm : x.core.Maps place 4)
    (hn : ∀ a : Word, a.toNat = place → Q (.ok ()) (x.wrote a (x.core.endian.encode 4 value), y)) :
    Yields (putPointer (A := simCore) place value).run Q (x, y) := by
  refine plays_putPointer hlt fun a ha => ⟨_, play_write hw ?_, hn a ha⟩
  rw [Endian.length_encode, ha]
  exact hm

/-- The partner's pointer is the word that the program left there. -/
theorem yields_partnerPointer {a : Word}
    {Q : Except Error Nat × Progress → Sim × ManualHost → Prop}
    (hm : x.counted.step.core.Maps a.toNat 4)
    (hn : Q (.ok (x.counted.step.core.contents.word x.counted.step.core.endian a.toNat), p)
      (x.counted.step, y)) :
    Yields ((partnerPointer (A := simCore) flow a).run.run p) Q (x, y) := by
  obtain ⟨bytes, hplay, hval⟩ := play_read hm
  refine plays_partnerPointer hplay ?_
  rw [Contents.word, ← hval] at hn
  exact hn

theorem yields_checkPointer {ptr : Nat}
    {Q : Except Error Unit × Progress → Sim × ManualHost → Prop} {w : Sim × ManualHost}
    (hv : e.ring.isValidPtr ptr = true) (hn : Q (.ok (), p) w) :
    Yields ((e.checkPointer flow ptr : StreamM simCore Unit).run.run p) Q w := by
  have hne : ptr ≠ 0 := by
    have := (Ring.isValidPtr_iff.mp hv).1
    have := e.ring.fifoStart_eq
    omega
  exact plays_checkPointer hv hne hn

/-- The host does not want to stop. -/
theorem yields_giveWay {t : Nat} {Q : Except Error Unit × Progress → Sim × ManualHost → Prop}
    (hy : Quiet t y) (hn : ∀ y, Quiet t y → Q (.ok (), p) (x, y)) :
    Yields ((giveWay : StreamM simCore Unit).run.run p) Q (x, y) := by
  refine wp_played (wp_played ?_)
  simp only [play, ManualHost.host, ManualHost.perform, hy.shutdown, Option.any_none]
  exact hn _ ⟨hy.now, rfl⟩

/-! ## Before and after -/

/-- The ring is emptied, and the program is started. -/
theorem yields_begin {r : Runner simCore}
    {Q : Except Error Unit × Held simCore → Sim × ManualHost → Prop}
    (hx : Ready e.ring r.image program x) (hr : r.state.isActive = false)
    (hn : ∀ r' x', r'.image = r.image → r'.pollInterval = r.pollInterval →
      Runner.Started x.control.breakpoints r' →
      Begun e.ring program (x.control.breakpoints ++ [r.image.exit]) x x' →
      Q (.ok (), ⟨r', true⟩) (x', y)) :
    Yields ((e.begin (A := simCore) flow).run.run ⟨r, false⟩) Q (x, y) := by
  have hrp := e.ring.rpAddr_eq
  have hst := e.ring.fifoStart_eq
  have hlt := e.ring.fifoStart_lt
  have hin := e.ring.fifoEnd_lt
  refine wp_get ?_
  refine wp_seq (wp_lift (Runner.yields_requireHalted hx.waits.halted ?_))
  -- the first pointer is stored, then the second, then the program is let go
  have hm₁ := hx.ram.maps_wpAddr hx.layout rfl
  refine wp_seq (wp_lift
    (yields_putPointer (by omega) hx.waits.writable hm₁ fun wpPlace hwpPlace => ?_))
  have hl := (Core.layout_store x.core wpPlace (x.core.endian.encode 4 e.ring.fifoStart)).trans
    hx.layout
  have hm₂ := hx.ram.maps_rpAddr hl rfl
  refine wp_seq (wp_lift
    (yields_putPointer (by omega) hx.waits.writable hm₂ fun rpPlace hrpPlace => ?_))
  refine wp_seq (wp_outcome (Runner.yields_start hr hx.mem hx.regs hx.exit (hx.waits.congr rfl)
    fun r' x' himage hpoll hr' hx' => ?_))
  refine hn r' x' himage hpoll hr' ⟨?_, ?_, hx'.endian, hx'.status⟩
  · rw [hx'.contents]
    rw [← hwpPlace] at hm₁ ⊢
    rw [← hrpPlace] at hm₂ ⊢
    refine (contents_wrote_word hm₂).trans ?_
    rw [contents_wrote_word hm₁]
    rfl
  · rw [hx'.memory]
    exact (Core.layout_store _ _ _).trans (Core.layout_store _ _ _)

/-- A program that stops at the exit point, and has not given up, makes a transfer a success. -/
theorem yields_conclude {patience own partner : Nat} {stats : Stats} {bps : List Word}
    {Q : Outcome × Held simCore → Sim × ManualHost → Prop} (hlt : partner < 0x100000000)
    (hr : Runner.Started bps h.runner)
    (hwatch : Yields (Runner.watch (A := simCore)
        (min (y.now.toNat + e.config.waitTimeout) 0xffffffffffffffff) h.runner.pollInterval
        patience)
      (fun a w => a = .halted ∧ Stopped bps h.runner.image.exit w.1 ∧ w.1.core.Maps partner 4 ∧
        w.1.core.contents.word w.1.core.endian partner ≠ 0 ∧
        ∀ r x', r.state = .completed → Intact w.1 x' (.stopped bps) →
          Q (.finished stats, ⟨r, false⟩) (x', w.2)) (x, y)) :
    Yields ((e.conclude (A := simCore) flow patience own partner (.ok ()) stats).run h) Q
      (x, y) := by
  rw [conclude]
  refine wp_then (Runner.yields_wait hr (wp_mono hwatch ?_))
  rintro _ ⟨x', y'⟩ ⟨rfl, hs, hm, hne, hn⟩
  refine ⟨rfl, hs, fun r x'' hr' hx'' => ?_⟩
  -- the core has halted, so the look at the partner's pointer changes nothing
  have hstep : x''.counted.step = x''.counted :=
    step_halted (congrArg Status.state hx''.status)
  have hword : x''.counted.core.contents.word x''.counted.core.endian partner ≠ 0 := by
    rw [show x''.counted.core = x''.core from rfl, hx''.contents, hx''.endian]
    exact hne
  have hm'' : x''.counted.core.Maps partner 4 :=
    ⟨(congrArg Memory.layout hx''.memory) ▸ hm.apart, hx''.memory ▸ hm.covers⟩
  refine wp_then (wp_liftOnly (wp_andThen (yields_address hlt fun a ha => ?_)))
  subst ha
  refine yields_readWord (hstep.symm ▸ hm'') ?_
  rw [hstep]
  obtain ⟨n, hword⟩ := Nat.exists_eq_succ_of_ne_zero hword
  rw [hword]
  exact hn r _ hr' ⟨hx''.memory, hx''.endian, hx''.status⟩

/-- A ring at the beginning of RAM that holds two blocks of one word each. -/
def ramRing : Ring :=
  { Ring.twoWords with
    start := 0x20000000
    aligned := by decide
    start_pos := by decide
    in_reach := by decide }

/-- An image without parameters. -/
def plainImage : simCore.Img :=
  { entry := 0x20001000, exit := 0x20001100, info := [] }

/-- A target on which a program waits at the entry of that image. -/
def waiting (program : Program) : Sim :=
  { Sim.fresh with control.programs := [(plainImage.entry, program)] }

/-- A target that waits for its program is ready. -/
theorem ready_waiting (program : Program) : Ready ramRing plainImage program (waiting program) :=
  ⟨rfl, ⟨by decide, by decide⟩, ⟨rfl, rfl, rfl, rfl, by simp [waiting, Sim.fresh]⟩, rfl, rfl,
    by decide⟩

end Engine

end DebugLink
