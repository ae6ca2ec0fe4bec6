import DebugLink.Chip.Basic
import DebugLink.Proofs.Sim.Memory

/-!
# RAM and flash of the chip

What the host and the loader see of the chip's memory.  The pointers and the data on their way
lie in RAM, which is followed byte by byte (`Store.inRam`); flash is only ever programmed from
one address on, which makes it a region with one list of bytes put into it (`store_append`).

`Store.blank` counts the erased halfwords from an address on: how far the loader can come.
-/

namespace DebugLink

namespace Region

variable {r : Region} {a b n : Nat} {data : List UInt8}

/-- Overwriting in two pieces is overwriting at once. -/
theorem overwrite_append (bytes : Array UInt8) (i : Nat) (d e : List UInt8) :
    overwrite (overwrite bytes i d) (i + d.length) e = overwrite bytes i (d ++ e) := by
  induction d generalizing bytes i with
  | nil => rfl
  | cons x d ih =>
      rw [overwrite, List.cons_append, overwrite, List.length_cons, ← ih]
      congr 1
      omega

/-- Two pieces that lie one behind the other are one piece. -/
theorem store_append (ha : r.base ≤ a) (d e : List UInt8) :
    (r.store a d).store (a + d.length) e = r.store a (d ++ e) := by
  have hpos : a + d.length - r.base = a - r.base + d.length := by omega
  simp only [store, hpos, overwrite_append]

/-- Storing moves no region. -/
theorem covers_store : (r.store a data).Covers b n ↔ r.Covers b n := by
  simp only [Covers, store, size_overwrite]

/-- What was loaded was there. -/
theorem covers_of_load? {bytes : Bytes n} (h : r.load? a n = some bytes) : r.Covers a n := by
  refine Decidable.byContradiction fun hn => ?_
  rw [load?, dif_neg hn] at h
  cases h

/-- What was put somewhere is there. -/
theorem load?_store_self (h : r.Covers a data.length) :
    (r.store a data).load? a data.length = some ⟨data, rfl⟩ := by
  obtain ⟨bytes, hload, hval⟩ := load?_eq (covers_store.mpr h : (r.store a data).Covers a _)
  rw [hload]
  refine congrArg some (Subtype.ext (hval.trans (List.ext_getElem (by simp) ?_)))
  intro i _ hi
  have hbase : r.base ≤ a + i := Nat.le_trans h.1 (Nat.le_add_right _ _)
  rw [List.getElem_map, List.getElem_range, byteAt_store h rfl hbase, if_pos (Nat.le_add_right _ _),
    Nat.add_sub_cancel_left, List.getD_eq_getElem?_getD, List.getElem?_eq_getElem hi]
  rfl

/-- What lies elsewhere stays. -/
theorem load?_store_of_disjoint (h : r.Covers a data.length)
    (hd : b + n ≤ a ∨ a + data.length ≤ b) : (r.store a data).load? b n = r.load? b n := by
  by_cases hb : r.Covers b n
  · obtain ⟨bytes, hload, hval⟩ := load?_eq (covers_store.mpr hb : (r.store a data).Covers b n)
    obtain ⟨bytes', hload', hval'⟩ := load?_eq hb
    rw [hload, hload']
    refine congrArg some (Subtype.ext (hval.trans ((List.map_congr_left fun i hi => ?_).trans
      hval'.symm)))
    have hi : i < n := List.mem_range.mp hi
    rw [byteAt_store h rfl (Nat.le_trans hb.1 (Nat.le_add_right _ _))]
    split
    · rw [List.getD_eq_getElem?_getD, List.getElem?_eq_none (by omega)]
      rfl
    · rfl
  · rw [load?, dif_neg (mt covers_store.mp hb), load?, dif_neg hb]

/-- A region that holds the same value everywhere. -/
theorem load?_filled {base size : Nat} {value : UInt8} (h : (filled base size value).Covers a n) :
    ∃ bytes, (filled base size value).load? a n = some bytes ∧
      bytes.val = List.replicate n value := by
  obtain ⟨bytes, hload, hval⟩ := load?_eq h
  obtain ⟨hlow, hhigh⟩ := covers_filled.mp h
  refine ⟨bytes, hload, hval.trans (List.eq_replicate_iff.mpr ⟨by simp, fun b hb => ?_⟩)⟩
  obtain ⟨i, hi, rfl⟩ := List.mem_map.mp hb
  have hi : i < n := List.mem_range.mp hi
  have hin : a + i - base < size := by omega
  rw [byteAt, filled, Array.getD_eq_getD_getElem?, Array.getElem?_replicate, if_pos hin]
  rfl

end Region

namespace Chip

namespace Store

/-- RAM and flash lie where the chip has them. -/
structure Laid (s : Store) : Prop where
  ramBase : s.ram.base = ramBase
  ramSize : s.ram.bytes.size = ramSize
  flashBase : s.flash.base = flashBase
  flashSize : s.flash.bytes.size = flashSize

/-- What RAM holds; zero outside of it. -/
def inRam (s : Store) : Contents :=
  Memory.contents [s.ram]

variable {s : Store} {a n : Nat} {data : List UInt8}

/-! ## RAM -/

/-- RAM is where it is on every chip. -/
theorem Laid.covers_ram (h : s.Laid) :
    s.ram.Covers a n ↔ Chip.ramBase ≤ a ∧ a + n ≤ Chip.ramBase + Chip.ramSize := by
  rw [Region.Covers, h.ramBase, h.ramSize]

/-- So is flash. -/
theorem Laid.covers_flash (h : s.Laid) :
    s.flash.Covers a n ↔ Chip.flashBase ≤ a ∧ a + n ≤ Chip.flashBase + Chip.flashSize := by
  rw [Region.Covers, h.flashBase, h.flashSize]

/-- What is loaded from RAM is what it holds. -/
theorem load?_ram (h : s.ram.Covers a n) :
    ∃ bytes, s.load? a n = some bytes ∧ bytes.val = s.inRam.slice a n := by
  obtain ⟨bytes, hload, hval⟩ := Region.load?_eq h
  refine ⟨bytes, by rw [load?, hload]; rfl, hval.trans (List.map_congr_left fun i hi => ?_)⟩
  have hi : i < n := List.mem_range.mp hi
  exact (Memory.contents_cons_of_covers (h.byte (by omega))).symm

/-- So is a word. -/
theorem word?_ram {a : Word} (h : s.ram.Covers a.toNat 4) :
    ∃ v : Word, s.word? a = some v ∧ v.toNat = s.inRam.word .little a.toNat := by
  obtain ⟨bytes, hload, hval⟩ := load?_ram h
  refine ⟨BitVec.ofNat 32 (littleValue bytes.val), by rw [word?, hload]; rfl, ?_⟩
  have hlt := littleValue_lt bytes.val
  rw [bytes.property] at hlt
  rw [Contents.word, ← hval, BitVec.toNat_ofNat]
  exact Nat.mod_eq_of_lt (by omega)

/-- A write to RAM is stored there. -/
theorem write_eq (h : s.ram.Covers a data.length) :
    s.write a data = ⟨s.ram.store a data, s.flash⟩ :=
  if_pos h

/-- No write reaches flash. -/
@[simp] theorem write_flash (s : Store) (a : Nat) (data : List UInt8) :
    (s.write a data).flash = s.flash := by
  rw [write]
  split <;> rfl

/-- RAM holds what was written to it. -/
theorem inRam_write (h : s.ram.Covers a data.length) :
    (s.write a data).inRam = s.inRam.store a data := by
  have hc : Memory.covers [s.ram] a data.length = true := Memory.covers_cons.mpr (.inl h)
  have hstore := Memory.contents_store (m := [s.ram]) (List.pairwise_singleton _ _) hc
  rw [Memory.store, if_pos h] at hstore
  rw [write_eq h]
  exact hstore

/-- Writing moves no memory. -/
theorem Laid.write (h : s.Laid) (a : Nat) (data : List UInt8) : (s.write a data).Laid := by
  rw [Store.write]
  split
  · exact ⟨h.ramBase, (Region.size_overwrite _ _ _).trans h.ramSize, h.flashBase, h.flashSize⟩
  · exact h

/-- Code is found where it was as long as it is not written over. -/
theorem load?_write_of_disjoint {b k : Nat} (h : s.ram.Covers a data.length)
    (hb : s.ram.Covers b k) (hd : b + k ≤ a ∨ a + data.length ≤ b) :
    (s.write a data).load? b k = s.load? b k := by
  obtain ⟨bytes, hload, -⟩ := Region.load?_eq hb
  rw [write_eq h, load?, load?, Region.load?_store_of_disjoint h hd, hload]

/-! ## Flash -/

/-- Programming does not reach RAM. -/
@[simp] theorem inRam_program (s : Store) (a : Nat) (data : List UInt8) :
    (s.program a data).inRam = s.inRam := rfl

/-- Flash holds what was programmed. -/
@[simp] theorem program_flash (s : Store) (a : Nat) (data : List UInt8) :
    (s.program a data).flash = s.flash.store a data := rfl

/-- Programming moves no memory. -/
theorem Laid.program (h : s.Laid) (a : Nat) (data : List UInt8) : (s.program a data).Laid :=
  ⟨h.ramBase, h.ramSize, h.flashBase, (Region.size_overwrite _ _ _).trans h.flashSize⟩

/-- Whether a halfword is erased is told by its two bytes. -/
theorem erased_congr {s s' : Store} {a : Word}
    (h : s'.flash.load? a.toNat 2 = s.flash.load? a.toNat 2) : s'.erased a = s.erased a := by
  rw [erased, erased, h]

/-- Only flash is ever erased. -/
theorem covers_of_erased {a : Word} (h : s.erased a = true) : s.flash.Covers a.toNat 2 := by
  refine Decidable.byContradiction fun hn => ?_
  rw [erased, Region.load?, dif_neg hn] at h
  cases h

/-- What is loaded from flash is what it holds. -/
theorem load?_flash (h : s.Laid) (hc : s.flash.Covers a n) : s.load? a n = s.flash.load? a n := by
  have hend : Chip.flashBase + Chip.flashSize < Chip.ramBase := by decide
  have hhigh := (h.covers_flash.mp hc).2
  have hram : ¬ s.ram.Covers a n := fun hram => by
    have hlow := (h.covers_ram.mp hram).1
    omega
  rw [load?, Region.load?, dif_neg hram]
  rfl

/-- How many halfwords from `a` on, `n` at most, are erased before the first one that is not, or
    that does not lie in flash. -/
def blank (s : Store) (a : Word) : Nat → Nat
  | 0 => 0
  | n + 1 => if s.erased a then s.blank (a + 2) n + 1 else 0

/-- No more than is asked about is blank. -/
theorem blank_le (s : Store) (a : Word) (n : Nat) : s.blank a n ≤ n := by
  induction n generalizing a with
  | zero => exact Nat.le_refl 0
  | succ n ih =>
      rw [blank]
      split
      · exact Nat.succ_le_succ (ih _)
      · exact Nat.zero_le _

/-- RAM does not matter. -/
theorem blank_congr {s s' : Store} (h : s'.flash = s.flash) (a : Word) (n : Nat) :
    s'.blank a n = s.blank a n := by
  induction n generalizing a with
  | zero => rfl
  | succ n ih => simp only [blank, ih, erased_congr (congrArg (·.load? a.toNat 2) h)]

/-- The halfword `i`, one place on. -/
theorem add_two_mul (a : Word) (i : Nat) :
    a + 2 + BitVec.ofNat 32 (2 * i) = a + BitVec.ofNat 32 (2 * (i + 1)) := by
  rw [Nat.mul_add, BitVec.ofNat_add, BitVec.add_assoc, BitVec.add_comm 2]
  rfl

/-- Those halfwords are erased, and their addresses do not wrap around. -/
theorem Laid.erased_of_lt_blank (h : s.Laid) {a : Word} {n i : Nat} (hi : i < s.blank a n) :
    s.erased (a + BitVec.ofNat 32 (2 * i)) = true ∧
      (a + BitVec.ofNat 32 (2 * i)).toNat = a.toNat + 2 * i := by
  induction n generalizing a i with
  | zero => exact absurd hi (Nat.not_lt_zero i)
  | succ n ih =>
      rw [blank] at hi
      split at hi
      · next ha =>
        cases i with
        | zero => exact ⟨by simpa using ha, by simp⟩
        | succ i =>
            obtain ⟨herased, haddr⟩ := ih (Nat.lt_of_succ_lt_succ hi)
            rw [add_two_mul] at herased haddr
            have hlow := (h.covers_flash.mp (covers_of_erased ha)).2
            have hend : Chip.flashBase + Chip.flashSize < 2 ^ 32 := by decide
            have hnext : (a + 2).toNat = a.toNat + 2 := by
              rw [BitVec.toNat_add]
              exact Nat.mod_eq_of_lt (by show _ + 2 < 2 ^ 32; omega)
            exact ⟨herased, by rw [haddr, hnext]; omega⟩
      · exact absurd hi (Nat.not_lt_zero i)

/-- The next one is not. -/
theorem not_erased_blank {a : Word} {n : Nat} (hn : s.blank a n < n) :
    s.erased (a + BitVec.ofNat 32 (2 * s.blank a n)) = false := by
  induction n generalizing a with
  | zero => exact absurd hn (Nat.not_lt_zero _)
  | succ n ih =>
      rw [blank] at hn ⊢
      split at hn
      · next ha =>
        rw [if_pos ha, ← add_two_mul]
        exact ih (Nat.lt_of_succ_lt_succ hn)
      · next ha =>
        rw [if_neg ha]
        simpa using ha

/-- Flash that was never programmed is erased as far as it goes. -/
theorem blank_filled (hs : s.flash = .filled Chip.flashBase Chip.flashSize 0xff) {a : Word}
    {n : Nat} (hlow : Chip.flashBase ≤ a.toNat)
    (hhigh : a.toNat + 2 * n ≤ Chip.flashBase + Chip.flashSize) : s.blank a n = n := by
  induction n generalizing a with
  | zero => rfl
  | succ n ih =>
      have hend : Chip.flashBase + Chip.flashSize < 2 ^ 32 := by decide
      have hnext : (a + 2).toNat = a.toNat + 2 := by
        rw [BitVec.toNat_add]
        exact Nat.mod_eq_of_lt (by show _ + 2 < 2 ^ 32; omega)
      have hc : (Region.filled Chip.flashBase Chip.flashSize 0xff).Covers a.toNat 2 :=
        Region.covers_filled.mpr ⟨hlow, by omega⟩
      obtain ⟨bytes, hload, hval⟩ := Region.load?_filled hc
      have ha : s.erased a = true := by
        rw [erased, hs, hload]
        exact decide_eq_true hval
      rw [blank, if_pos ha, ih (by omega) (by omega)]

end Store

end Chip

end DebugLink
