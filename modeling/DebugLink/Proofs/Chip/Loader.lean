import DebugLink.Proofs.Chip.Memory
import DebugLink.Proofs.Sim.Consumer

/-!
# A burst of the flash loader

The loader is a consumer of its own: it takes a halfword, programs it, and publishes its pointer
behind it, and it decides by its own count when it is done.  One halfword is a move of
`Intake.Sound` (`Holds.halfword`), so what is known of conforming consumers is known of it.

`Holds.burst` is the induction over a burst.  A burst ends in one of three ways (`Ends`): it GOES
ON, having done all of its halfwords or caught up with the host; it is DONE, the count being down
to zero; or it has FAILED at the first halfword that is not erased, which is where
`Store.blank` says.
-/

namespace DebugLink.Chip

open Intake

/-- A run of the loader: which ring it drains, where its code lies, what it is handed, and where
    that is to go. -/
structure Job where
  ring : Ring
  data : List UInt8
  code : Word
  dest : Word
  /-- RAM and flash before the run. -/
  before : Store
  laid : before.Laid
  block : ring.block = 2
  even : ring.size % 2 = 0
  low : ramBase ≤ ring.start
  high : ring.fifoEnd ≤ ramBase + ramSize
  code_low : ramBase ≤ code.toNat
  code_high : code.toNat + loaderStub.length ≤ ramBase + ramSize
  apart : code.toNat + loaderStub.length ≤ ring.start ∨ ring.fifoEnd ≤ code.toNat

namespace Job

variable (j : Job)

/-- The halfwords that the loader is told to program: as many as a register can hold of those
    that there are. -/
def total : Nat :=
  (BitVec.ofNat 32 (j.data.length / 2)).toNat

/-- How many of them it can program. -/
def room : Nat :=
  j.before.blank j.dest j.total

/-- Where the loader jumps in the end. -/
def exit : Word :=
  j.code + loaderExit

/-- The loader when it has programmed `c` bytes. -/
def loader (c : Nat) : Loader where
  count := BitVec.ofNat 32 (j.total - c / 2)
  ring := BitVec.ofNat 32 j.ring.wpAddr
  ringEnd := BitVec.ofNat 32 (j.ring.wpAddr + j.ring.size)
  dest := j.dest + BitVec.ofNat 32 c
  exit := j.exit

/-! ## Numbers -/

theorem total_lt : j.total < 2 ^ 32 :=
  (BitVec.ofNat 32 (j.data.length / 2)).isLt

/-- No more halfwords are announced than there are in the data. -/
theorem total_le : 2 * j.total ≤ j.data.length := by
  have hmod : j.total = j.data.length / 2 % 2 ^ 32 := BitVec.toNat_ofNat ..
  have := Nat.mod_le (j.data.length / 2) (2 ^ 32)
  omega

/-- All of them are announced if their number is a word. -/
theorem total_eq (h : j.data.length < 2 ^ 33) : j.total = j.data.length / 2 := by
  rw [total, BitVec.toNat_ofNat]
  exact Nat.mod_eq_of_lt (by omega)

theorem room_le : j.room ≤ j.total :=
  Store.blank_le _ _ _

/-- A fifo holds whole halfwords. -/
theorem capacity_even : j.ring.capacity % 2 = 0 := by
  have heven := j.even
  have hfit := j.ring.pointers_fit
  rw [Ring.capacity]
  omega

/-- A halfword does not go around the end of the fifo. -/
theorem place_fits {c : Nat} (hc : c % 2 = 0) : j.ring.place c + 2 ≤ j.ring.fifoEnd := by
  have hlt := j.ring.place_lt c
  have heven := j.capacity_even
  have hmod : c % j.ring.capacity % 2 = 0 := by
    rw [Nat.mod_mod_of_dvd c (Nat.dvd_of_mod_eq_zero heven)]
    exact hc
  have hend := j.ring.fifoEnd_eq
  rw [Ring.place] at hlt ⊢
  omega

/-- The places of halfwords are those that the host accepts. -/
theorem valid_place {c : Nat} (hc : c % 2 = 0) : j.ring.isValidPtr (j.ring.place c) = true := by
  have hmod : c % j.ring.capacity % 2 = 0 := by
    rw [Nat.mod_mod_of_dvd c (Nat.dvd_of_mod_eq_zero j.capacity_even)]
    exact hc
  refine Ring.isValidPtr_iff.mpr ⟨j.ring.fifoStart_le_place c, j.ring.place_lt c, ?_⟩
  rw [j.block, Ring.place, Nat.add_sub_cancel_left]
  exact hmod

/-- The loader looks for the ring where it lies. -/
theorem toNat_ring (c : Nat) : (j.loader c).ring.toNat = j.ring.wpAddr := by
  have hend := j.ring.fifoEnd_lt
  have hst := j.ring.fifoStart_eq
  have hlt := j.ring.fifoStart_lt
  show (BitVec.ofNat 32 j.ring.wpAddr).toNat = _
  rw [BitVec.toNat_ofNat]
  omega

theorem toNat_rpPlace (c : Nat) : (j.loader c).rpPlace.toNat = j.ring.rpAddr := by
  have hend := j.ring.fifoEnd_lt
  have hst := j.ring.fifoStart_eq
  have hlt := j.ring.fifoStart_lt
  have hrp := j.ring.rpAddr_eq
  have hring := j.toNat_ring c
  rw [Loader.rpPlace, BitVec.toNat_add, hring, hrp]
  exact Nat.mod_eq_of_lt (by show _ + 4 < 2 ^ 32; omega)

/-- The loader's rule for going around is the host's. -/
theorem toNat_next {c d : Nat} {rp : Word} (hc : c % 2 = 0) (hrp : rp.toNat = j.ring.place c) :
    ((j.loader d).next rp).toNat = j.ring.place (c + 2) := by
  have hfits := j.place_fits hc
  have hend := j.ring.fifoEnd_lt
  have hst := j.ring.fifoStart_eq
  have hring := j.toNat_ring d
  have hlt := j.ring.fifoStart_lt
  have hfe : j.ring.fifoEnd = j.ring.wpAddr + j.ring.size := rfl
  have hsum : (rp + 2).toNat = j.ring.place c + 2 := by
    rw [BitVec.toNat_add, hrp]
    exact Nat.mod_eq_of_lt (by show _ + 2 < 2 ^ 32; omega)
  have hringEnd : (j.loader d).ringEnd.toNat = j.ring.fifoEnd := by
    show (BitVec.ofNat 32 (j.ring.wpAddr + j.ring.size)).toNat = _
    rw [BitVec.toNat_ofNat]
    omega
  have hstart : ((j.loader d).ring + 8).toNat = j.ring.fifoStart := by
    rw [BitVec.toNat_add, hring]
    exact (Nat.mod_eq_of_lt (by show _ + 8 < 2 ^ 32; omega)).trans hst.symm
  -- nothing overflows, so both compare and add the same numbers
  rw [← Ring.advance_place hfits, Loader.next, Ring.advance]
  simp only [BitVec.le_def, hringEnd, hsum]
  split
  · exact hstart
  · exact hsum

/-- After one halfword more it has one less to go. -/
theorem loader_add (c : Nat) :
    { j.loader c with
      dest := (j.loader c).dest + 2, count := BitVec.ofNat 32 (j.total - (c + 2) / 2) } =
      j.loader (c + 2) := by
  have hdest : j.dest + BitVec.ofNat 32 c + 2 = j.dest + BitVec.ofNat 32 (c + 2) := by
    rw [BitVec.ofNat_add, BitVec.add_assoc]
    rfl
  simp only [loader, hdest]

/-- The count goes down by one. -/
theorem count_pred {c : Nat} (hc : c % 2 = 0) (hmore : c < 2 * j.total) :
    (j.loader c).count - 1 = BitVec.ofNat 32 (j.total - (c + 2) / 2) := by
  have hlt := j.total_lt
  have hone : j.total - c / 2 = j.total - (c + 2) / 2 + 1 := by omega
  show BitVec.ofNat 32 (j.total - c / 2) - 1 = _
  rw [hone, BitVec.ofNat_add]
  exact BitVec.add_sub_cancel _ _

/-- It is done when all halfwords were consumed. -/
theorem count_eq_zero {c : Nat} (hc : c % 2 = 0) :
    (j.loader c).count = 0 ↔ 2 * j.total ≤ c := by
  have hlt := j.total_lt
  have hnat : (j.loader c).count.toNat = j.total - c / 2 := by
    show (BitVec.ofNat 32 (j.total - c / 2)).toNat = _
    rw [BitVec.toNat_ofNat]
    exact Nat.mod_eq_of_lt (by omega)
  rw [← BitVec.toNat_inj, hnat, show (0 : Word).toNat = 0 from rfl]
  omega

/-! ## Where the halfwords go -/

variable {j} {c n : Nat} {w : Intake} {s : Store}

/-- What can be programmed lies in flash. -/
theorem covers_dest (hpos : 0 < c) (hc : c ≤ 2 * j.room) :
    j.before.flash.Covers j.dest.toNat c := by
  have hroom : 0 < j.room := by omega
  have hfirst := (j.laid.erased_of_lt_blank (a := j.dest) (n := j.total) (i := 0) hroom)
  have hlast := (j.laid.erased_of_lt_blank (a := j.dest) (n := j.total) (i := j.room - 1)
    (show j.room - 1 < j.room by omega))
  have hlow := (j.laid.covers_flash.mp (Store.covers_of_erased hfirst.1)).1
  have hhigh := (j.laid.covers_flash.mp (Store.covers_of_erased hlast.1)).2
  rw [hfirst.2] at hlow
  rw [hlast.2] at hhigh
  exact j.laid.covers_flash.mpr ⟨hlow, by omega⟩

/-- The destination does not go around the end of the address space. -/
theorem toNat_dest (hc : c ≤ 2 * j.room) :
    (j.dest + BitVec.ofNat 32 c).toNat = j.dest.toNat + c := by
  rcases Nat.eq_zero_or_pos c with rfl | hpos
  · rw [BitVec.add_zero, Nat.add_zero]
  · have hhigh := (j.laid.covers_flash.mp (covers_dest hpos hc)).2
    have hend : flashBase + flashSize < 2 ^ 32 := by decide
    rw [BitVec.toNat_add, BitVec.toNat_ofNat]
    omega

/-! ## One halfword -/

/-- The host has handed over `n` bytes, and the loader has programmed those that it consumed. -/
structure Holds (j : Job) (n : Nat) (w : Intake) (s : Store) : Prop where
  knows : Engine.At j.ring .little j.data n n 0 w
  settled : w.pending = 0
  memory : s.inRam = w.memory
  laid : s.Laid
  flash : s.flash = j.before.flash.store j.dest.toNat w.consumed
  whole : w.consumed.length % 2 = 0
  within : w.consumed.length ≤ 2 * j.room
  /-- The host stops amid a halfword only at the end. -/
  parity : n % 2 = 0 ∨ n = j.data.length

/-- The loader has given up at the first halfword that cannot be programmed. -/
structure Failed (j : Job) (s : Store) : Prop where
  laid : s.Laid
  zero : s.inRam.word .little j.ring.rpAddr = 0
  flash : s.flash = j.before.flash.store j.dest.toNat (j.data.take (2 * j.room))
  short : j.room < j.total

/-- The loader looks at flash as it was before. -/
theorem Holds.erased_iff (h : j.Holds n w s) (hmore : w.consumed.length < 2 * j.total) :
    s.erased (j.loader w.consumed.length).dest = true ↔ w.consumed.length < 2 * j.room := by
  have haddr := toNat_dest h.within
  have hwhole := h.whole
  have hwithin := h.within
  -- what was programmed so far lies in front of it
  have hsame : s.erased (j.loader w.consumed.length).dest =
      j.before.erased (j.dest + BitVec.ofNat 32 w.consumed.length) := by
    refine Store.erased_congr ?_
    rw [h.flash]
    rcases Nat.eq_zero_or_pos w.consumed.length with hzero | hpos
    · rw [List.eq_nil_of_length_eq_zero hzero]
      rfl
    · exact Region.load?_store_of_disjoint (covers_dest hpos h.within)
        (.inr (Nat.le_of_eq haddr.symm))
  rw [hsame]
  constructor
  · intro he
    -- behind the room lies a halfword that was not blank
    refine Nat.lt_of_le_of_ne h.within fun heq => ?_
    have hstop : j.before.erased (j.dest + BitVec.ofNat 32 (2 * j.room)) = false :=
      Store.not_erased_blank (show j.room < j.total by omega)
    rw [heq, hstop] at he
    cases he
  · intro hlt
    have he := (j.laid.erased_of_lt_blank (a := j.dest) (n := j.total)
      (i := w.consumed.length / 2) (show _ < j.room by omega)).1
    rwa [show 2 * (w.consumed.length / 2) = w.consumed.length by omega] at he

/-- A halfword of the ring may be looked at. -/
theorem covers_ring (hs : s.Laid) {a k : Nat} (ha : j.ring.start ≤ a)
    (hk : a + k ≤ j.ring.fifoEnd) : s.ram.Covers a k := by
  have hlow := j.low
  have hhigh := j.high
  exact hs.covers_ram.mpr ⟨by omega, by omega⟩

/-- The write pointer lies in the memory, ... -/
theorem covers_wpAddr (hs : s.Laid) : s.ram.Covers j.ring.wpAddr 4 := by
  have hst := j.ring.fifoStart_eq
  have hlt := j.ring.fifoStart_lt
  exact covers_ring (j := j) hs (Nat.le_refl _) (by omega)

/-- ... and so does the read pointer. -/
theorem covers_rpAddr (hs : s.Laid) : s.ram.Covers j.ring.rpAddr 4 := by
  have hst := j.ring.fifoStart_eq
  have hrp := j.ring.rpAddr_eq
  have hlt := j.ring.fifoStart_lt
  have hwp : j.ring.wpAddr = j.ring.start := rfl
  exact covers_ring (j := j) hs (by omega) (by omega)

/-- What the loader reads as its pointers. -/
theorem Holds.pointers (h : j.Holds n w s) (d : Nat) : ∃ wp rp : Word,
    s.word? (j.loader d).ring = some wp ∧ s.word? (j.loader d).rpPlace = some rp ∧
      wp.toNat = j.ring.place n ∧ rp.toNat = j.ring.place w.consumed.length := by
  have hwp := j.toNat_ring d
  have hrp := j.toNat_rpPlace d
  obtain ⟨wp, hwp', hwpv⟩ := Store.word?_ram (s := s) (hwp.symm ▸ covers_wpAddr h.laid)
  obtain ⟨rp, hrp', hrpv⟩ := Store.word?_ram (s := s) (hrp.symm ▸ covers_rpAddr h.laid)
  rw [hwp, h.memory, (h.knows.words h.settled).1] at hwpv
  rw [hrp, h.memory, (h.knows.words h.settled).2] at hrpv
  exact ⟨wp, rp, hwp', hrp', hwpv, hrpv⟩

/-- Where there is more for the loader, there is a halfword: the host does not stop amid one that
    is counted. -/
theorem Holds.there (h : j.Holds n w s) (hmore : w.consumed.length < 2 * j.total)
    (hlt : w.consumed.length < n) {rp : Word} (hrp : rp.toNat = j.ring.place w.consumed.length) :
    w.consumed.length + 2 ≤ n ∧
      ∃ half, s.load? rp.toNat 2 = some half ∧ half.val = w.memory.slice w.rp 2 := by
  have hparity := h.parity
  have hwhole := h.whole
  have htotal := j.total_le
  have hfits := j.place_fits h.whole
  have hplace := j.ring.fifoStart_le_place w.consumed.length
  have hst := j.ring.fifoStart_eq
  have hwp : j.ring.wpAddr = j.ring.start := rfl
  have hc : s.ram.Covers rp.toNat 2 := covers_ring (j := j) h.laid (by omega) (by omega)
  obtain ⟨half, hload, hhalf⟩ := Store.load?_ram hc
  rw [hrp, h.memory, ← h.knows.rp_eq h.settled] at hhalf
  exact ⟨by omega, half, hload, hhalf⟩

/-- A halfword that cannot be programmed: the loader says so, and has programmed all before it. -/
theorem Holds.stops (h : j.Holds n w s) (hstop : w.consumed.length = 2 * j.room)
    (hshort : j.room < j.total) (d : Nat) : j.Failed (s.writeWord (j.loader d).rpPlace 0) := by
  have hrpPlace := j.toNat_rpPlace d
  have hsmall : s.ram.Covers (j.loader d).rpPlace.toNat (littleBytes 4 0).length := by
    rw [length_littleBytes, hrpPlace]
    exact covers_rpAddr h.laid
  refine ⟨h.laid.write _ _, ?_, ?_, hshort⟩
  · show Contents.word _ (s.write _ (littleBytes 4 0)).inRam _ = 0
    rw [Store.inRam_write hsmall, hrpPlace]
    exact Contents.word_store_self .little _ _ (by decide)
  · show (s.write _ _).flash = _
    rw [Store.write_flash, h.flash, ← hstop, ← h.knows.sound.consumed]

/-- A halfword is taken, programmed, and acknowledged. -/
theorem Holds.halfword (h : j.Holds n w s) {d : Nat} {rp : Word} {half : List UInt8}
    (hrp : rp.toNat = j.ring.place w.consumed.length)
    (hhalf : half = w.memory.slice w.rp 2) (hthere : w.consumed.length + 2 ≤ n)
    (hroom : w.consumed.length < 2 * j.room) :
    ∃ w', w'.consumed.length = w.consumed.length + 2 ∧
      j.Holds n w' ((s.program (j.loader w.consumed.length).dest.toNat half).writeWord
        (j.loader d).rpPlace ((j.loader d).next rp)) := by
  have hwhole := h.whole
  have hfits := j.place_fits h.whole
  have hnext := j.toNat_next (d := d) h.whole hrp
  have hblock := j.ring.block_pos
  obtain ⟨hle, hbehind, -⟩ := h.knows.window h.settled
  have hlen : half.length = 2 := by rw [hhalf, Contents.length_slice]
  have hlaid := h.laid.program (j.loader w.consumed.length).dest.toNat half
  have hrpPlace := j.toNat_rpPlace d
  refine ⟨{ w with
    memory := w.memory.store j.ring.rpAddr
      (Endian.little.encode 4 (j.ring.place (w.consumed.length + 2)))
    consumed := w.consumed ++ half
    rp := j.ring.place (w.consumed.length + 2)
    pending := 0 }, by simp [hlen], ⟨⟨?_, h.knows.handed, h.knows.published, Nat.zero_le _⟩, rfl,
    ?_, hlaid.write _ _, ?_, ?_, ?_, h.parity⟩⟩
  · rw [hhalf]
    refine h.knows.sound.drain h.settled ?_ (fun _ _ _ => rfl) ?_ (.inl ?_)
    · -- two bytes may be read: the writer is that far ahead
      rw [(h.knows.words h.settled).1, h.knows.rp_eq h.settled, Ring.readSpace]
      rcases Ring.place_behind (r := j.ring) hle (by omega) with hp | hp <;> split <;> omega
    · rw [h.knows.rp_eq h.settled, Ring.advance_place hfits]
    · exact (Ring.isValidPtr_iff.mp (j.valid_place (by omega))).2.2
  · show ((s.program _ half).write _ (littleBytes 4 _)).inRam = _
    rw [hnext, Store.inRam_write, hrpPlace, Store.inRam_program, h.memory]
    · rfl
    · rw [length_littleBytes, hrpPlace]
      exact covers_rpAddr hlaid
  · show ((s.program _ half).write _ _).flash = _
    rw [Store.write_flash, Store.program_flash, h.flash,
      show (j.loader w.consumed.length).dest.toNat = j.dest.toNat + w.consumed.length from
        toNat_dest h.within]
    refine Region.store_append ?_ _ _
    exact (covers_dest (c := 2) (by omega) (by omega)).1
  · show (w.consumed ++ half).length % 2 = 0
    rw [List.length_append]
    omega
  · show (w.consumed ++ half).length ≤ _
    rw [List.length_append]
    omega

/-! ## A burst -/

/-- How a burst of `m` halfwords ends that begins with `c` bytes programmed.  One that does all of
    its halfwords always goes on: it takes another one to notice that there is an end. -/
inductive Ends (j : Job) (n c m : Nat) : Loader.Burst → Prop where
  | goesOn {w : Intake} {s : Store} {notes : List Note} (h : j.Holds n w s)
      (grows : c ≤ w.consumed.length)
      (works : w.consumed.length = c + 2 * m ∨
        w.consumed.length = n ∧ w.consumed.length < 2 * j.total) :
      Ends j n c m ⟨none, j.loader w.consumed.length, s, notes⟩
  | done {w : Intake} {s : Store} {notes : List Note} (h : j.Holds n w s)
      (all : w.consumed.length = 2 * j.total) (early : 2 * j.total < c + 2 * m) :
      Ends j n c m ⟨some 0, j.loader w.consumed.length, s, notes⟩
  | failed {l : Loader} {s : Store} {notes : List Note} (h : j.Failed s) (exit : l.exit = j.exit)
      (early : 2 * j.room < c + 2 * m) :
      Ends j n c m ⟨some programmingError, l, s, notes⟩

/-- A burst behind one more halfword ends in the same way. -/
theorem Ends.step {m : Nat} {b : Loader.Burst} (h : j.Ends n (c + 2) m b) :
    j.Ends n c (m + 1) b := by
  cases h with
  | goesOn h grows works => exact .goesOn h (by omega) (by omega)
  | done h all early => exact .done h all (by omega)
  | failed h exit early => exact .failed h exit (by omega)

/-- A burst, from wherever the loader is. -/
theorem Holds.burst (h : j.Holds n w s) (m : Nat) :
    j.Ends n w.consumed.length m ((j.loader w.consumed.length).burst m s) := by
  -- on the halfwords of the burst, with what holds before each of them
  induction m generalizing w s with
  | zero => exact .goesOn h (Nat.le_refl _) (.inl rfl)
  | succ m ih =>
      have hwhole := h.whole
      have hwithin := h.within
      have hroom := j.room_le
      rw [Loader.burst]
      by_cases hall : 2 * j.total ≤ w.consumed.length
      · rw [if_pos ((j.count_eq_zero h.whole).mpr hall)]
        exact .done h (by omega) (by omega)
      · rw [if_neg (mt (j.count_eq_zero h.whole).mp hall)]
        obtain ⟨wp, rp, hwp, hrp, hwpv, hrpv⟩ := h.pointers w.consumed.length
        obtain ⟨hle, hbehind, -⟩ := h.knows.window h.settled
        have hpos := j.ring.block_pos
        have hlow := j.ring.fifoStart_le_place n
        have hst := j.ring.fifoStart_eq
        have hne : wp ≠ 0 := by
          rintro rfl
          have : (0 : Word).toNat = 0 := rfl
          omega
        simp only [hwp, hrp]
        rw [if_neg hne]
        by_cases heq : wp = rp
        · -- the loader has caught up with the host
          rw [if_pos heq]
          have hn : n = w.consumed.length :=
            Ring.eq_of_place_eq (r := j.ring) hle (by omega) (by rw [← hwpv, ← hrpv, heq])
          exact .goesOn h (Nat.le_refl _) (.inr ⟨hn.symm, Nat.lt_of_not_le hall⟩)
        · rw [if_neg heq]
          have hlt : w.consumed.length < n := by
            refine Nat.lt_of_le_of_ne hle fun hn => heq (BitVec.eq_of_toNat_eq ?_)
            rw [hwpv, hrpv, hn]
          obtain ⟨hthere, half, hload, hhalf⟩ := h.there (Nat.lt_of_not_le hall) hlt hrpv
          simp only [hload]
          -- there is a halfword: its place in the flash decides
          by_cases herased : s.erased (j.loader w.consumed.length).dest = true
          · rw [if_pos herased]
            obtain ⟨w', hlen, hw'⟩ := h.halfword (d := w.consumed.length) hrpv hhalf hthere
              ((h.erased_iff (by omega)).mp herased)
            have hrest := ih hw'
            rw [hlen] at hrest
            rw [j.count_pred h.whole (by omega), j.loader_add]
            exact hrest.step
          · rw [if_neg herased]
            have hstop : w.consumed.length = 2 * j.room := by
              have := mt (h.erased_iff (by omega)).mpr herased
              omega
            exact .failed (h.stops hstop (by omega) _) rfl (by omega)

end Job

end DebugLink.Chip
