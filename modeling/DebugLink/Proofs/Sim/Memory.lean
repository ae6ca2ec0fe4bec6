import DebugLink.Proofs.Bench
import DebugLink.Sim.Core

/-!
# Memory of simulated targets, seen as a whole

A memory is a list of regions; `Memory.contents` is what it holds at each address.  As long as
no two regions overlap (`Apart`), loading is reading the contents (`load?_eq`) and storing is
changing them (`contents_store`), wherever a single region covers the access.  Where the regions
lie (`layout`) never changes.
-/

namespace DebugLink

namespace Region

/-- The byte at an address; zero outside of the region. -/
def byteAt (r : Region) (x : Nat) : UInt8 :=
  r.bytes.getD (x - r.base) 0

variable {r : Region} {a n : Nat}

/-- A region that is filled with one value covers what lies between its ends. -/
theorem covers_filled {base size : Nat} {value : UInt8} :
    (filled base size value).Covers a n ↔ base ≤ a ∧ a + n ≤ base + size := by
  rw [Covers, filled, Array.size_replicate]

/-- Each byte of a block that is covered is covered. -/
theorem Covers.byte (h : r.Covers a n) {x : Nat} (hx : a ≤ x ∧ x < a + n) : r.Covers x 1 := by
  unfold Covers at *
  omega

/-- What is loaded from a region is what it has at those addresses. -/
theorem load?_eq (h : r.Covers a n) : ∃ bytes, r.load? a n = some bytes ∧
    bytes.val = (List.range n).map fun i => r.byteAt (a + i) := by
  unfold load?
  rw [dif_pos h]
  refine ⟨_, rfl, ?_⟩
  unfold Covers at h
  refine List.ext_getElem (by simp; omega) ?_
  intro i hi hi'
  have hn : i < n := by simpa using hi'
  have hpos : a + i - r.base = a - r.base + i := by omega
  simp only [Array.getElem_toList, Array.getElem_extract, List.getElem_map, List.getElem_range,
    byteAt, hpos]
  rw [Array.getD_eq_getD_getElem?, Array.getElem?_eq_getElem (by omega)]
  rfl

/-- Overwriting changes no size. -/
@[simp] theorem size_overwrite (bytes : Array UInt8) (i : Nat) (data : List UInt8) :
    (overwrite bytes i data).size = bytes.size := by
  induction data generalizing bytes i with
  | nil => rfl
  | cons b data ih => rw [overwrite, ih, Array.size_setIfInBounds]

/-- What is overwritten is replaced, and everything else is kept. -/
theorem getD_overwrite (bytes : Array UInt8) (i : Nat) (data : List UInt8) (x : Nat)
    (hi : i + data.length ≤ bytes.size) :
    (overwrite bytes i data).getD x 0 =
      if i ≤ x then data.getD (x - i) (bytes.getD x 0) else bytes.getD x 0 := by
  induction data generalizing bytes i with
  | nil => simp [overwrite]
  | cons b data ih =>
      rw [List.length_cons] at hi
      rw [overwrite, ih _ _ (by rw [Array.size_setIfInBounds]; omega)]
      simp only [Array.getD_eq_getD_getElem?, Array.getElem?_setIfInBounds]
      -- before the byte that is written first, at it, or behind it
      rcases Nat.lt_trichotomy x i with hlt | rfl | hgt
      · rw [if_neg (by omega), if_neg (by omega), if_neg (by omega)]
      · rw [if_neg (by omega), if_pos (Nat.le_refl _), if_pos rfl, if_pos (by omega), Nat.sub_self]
        rfl
      · obtain ⟨d, rfl⟩ : ∃ d, x = i + 1 + d := ⟨x - (i + 1), by omega⟩
        rw [if_pos (by omega), if_neg (by omega), if_pos (by omega),
          show i + 1 + d - (i + 1) = d by omega, show i + 1 + d - i = d + 1 by omega]
        rfl

/-- What is stored in a region is replaced, and everything else is kept. -/
theorem byteAt_store (h : r.Covers a n) {data : List UInt8} (hn : data.length = n) {x : Nat}
    (hx : r.base ≤ x) :
    (r.store a data).byteAt x = if a ≤ x then data.getD (x - a) (r.byteAt x) else r.byteAt x := by
  unfold Covers at h
  rw [byteAt, store, getD_overwrite _ _ _ _ (by omega)]
  by_cases hax : a ≤ x
  · rw [if_pos hax, if_pos (by simp; omega)]
    simp only [byteAt]
    rw [show x - r.base - (a - r.base) = x - a by omega]
  · rw [if_neg hax, if_neg (by simp; omega)]
    rfl

end Region

namespace Memory

/-- What memory holds; zero where there is none. -/
def contents (m : Memory) : Contents := fun x =>
  match m.find? (·.Covers x 1) with
  | some r => r.byteAt x
  | none => 0

/-- Where the regions lie. -/
def layout (m : Memory) : List (Nat × Nat) :=
  m.map fun r => (r.base, r.bytes.size)

/-- No two regions overlap. -/
def Apart (layout : List (Nat × Nat)) : Prop :=
  layout.Pairwise fun p q => p.1 + p.2 ≤ q.1 ∨ q.1 + q.2 ≤ p.1

instance (layout : List (Nat × Nat)) : Decidable (Apart layout) :=
  inferInstanceAs (Decidable (List.Pairwise _ _))

variable {m : Memory} {r : Region} {a n : Nat}

/-- A block is covered by the first region, or by one of the others. -/
theorem covers_cons : covers (r :: m) a n = true ↔ r.Covers a n ∨ m.covers a n = true := by
  simp [covers]

/-- Whether an address is mapped depends on the layout alone. -/
theorem covers_congr {m' : Memory} (h : m'.layout = m.layout) : m'.covers a n = m.covers a n := by
  have hlayout : ∀ m : Memory,
      m.covers a n = m.layout.any fun p => decide (p.1 ≤ a ∧ a + n ≤ p.1 + p.2) := by
    intro m
    rw [covers, layout, List.any_map]
    rfl
  rw [hlayout, hlayout, h]

/-- Part of a mapped block is mapped. -/
theorem covers_within {b k : Nat} (h : m.covers a n = true) (hb : a ≤ b) (hk : b + k ≤ a + n) :
    m.covers b k = true := by
  obtain ⟨r, hr, hc⟩ := List.any_eq_true.mp h
  have hc : r.Covers a n := of_decide_eq_true hc
  refine List.any_eq_true.mpr ⟨r, hr, decide_eq_true ?_⟩
  unfold Region.Covers at hc ⊢
  omega

/-- A region that does not overlap the others holds no byte of a block in one of those. -/
theorem not_covers_of_apart (hap : Apart (layout (r :: m))) (h : m.covers a n = true) {x : Nat}
    (hx : a ≤ x ∧ x < a + n) : ¬ r.Covers x 1 := by
  obtain ⟨r', hr', hc⟩ := List.any_eq_true.mp h
  have hc : r'.Covers a n := of_decide_eq_true hc
  have hr : r.base + r.bytes.size ≤ r'.base ∨ r'.base + r'.bytes.size ≤ r.base :=
    (List.pairwise_cons.mp hap).1 _ (List.mem_map_of_mem hr')
  unfold Region.Covers at hc ⊢
  omega

/-- The first region that covers an address holds its byte. -/
theorem contents_cons_of_covers {x : Nat} (h : r.Covers x 1) :
    contents (r :: m) x = r.byteAt x := by
  rw [contents, List.find?_cons_of_pos (by simpa using h)]

/-- A region that does not cover an address has no say in it. -/
theorem contents_cons_of_not_covers {x : Nat} (h : ¬ r.Covers x 1) :
    contents (r :: m) x = m.contents x := by
  rw [contents, List.find?_cons_of_neg (by simpa using h)]
  rfl

/-- Loading is reading the contents. -/
theorem load?_eq (hap : Apart m.layout) (h : m.covers a n = true) :
    ∃ bytes, m.load? a n = some bytes ∧ bytes.val = m.contents.slice a n := by
  induction m with
  | nil => cases h
  | cons r m ih =>
      by_cases hr : r.Covers a n
      · obtain ⟨bytes, hload, hval⟩ := Region.load?_eq hr
        refine ⟨bytes, ?_, ?_⟩
        · rw [load?, List.findSome?_cons, hload]
        · rw [hval]
          refine List.map_congr_left fun i hi => ?_
          have hi : i < n := List.mem_range.mp hi
          exact (contents_cons_of_covers (hr.byte (by omega))).symm
      · have hm := (covers_cons.mp h).resolve_left hr
        obtain ⟨bytes, hload, hval⟩ := ih (List.pairwise_cons.mp hap).2 hm
        refine ⟨bytes, ?_, ?_⟩
        · rw [load?, List.findSome?_cons, Region.load?, dif_neg hr]
          exact hload
        · rw [hval]
          refine Contents.slice_congr fun i hi => ?_
          exact (contents_cons_of_not_covers
            (not_covers_of_apart hap hm (by omega))).symm

/-- Storing moves no region. -/
theorem layout_store (m : Memory) (a : Nat) (data : List UInt8) :
    (m.store a data).layout = m.layout := by
  induction m with
  | nil => rfl
  | cons r m ih =>
      rw [store]
      split
      · simp only [layout, List.map_cons, Region.store, Region.size_overwrite]
      · exact congrArg (List.cons _) ih

/-- Storing is changing the contents. -/
theorem contents_store (hap : Apart m.layout) {data : List UInt8}
    (h : m.covers a data.length = true) : (m.store a data).contents = m.contents.store a data := by
  induction m with
  | nil => cases h
  | cons r m ih =>
      funext x
      rw [store]
      by_cases hr : r.Covers a data.length
      · rw [if_pos hr]
        -- the region covers what it covered before
        have hiff : (r.store a data).Covers x 1 ↔ r.Covers x 1 := by
          simp only [Region.Covers, Region.store, Region.size_overwrite]
        by_cases hx : r.Covers x 1
        · rw [contents_cons_of_covers (hiff.mpr hx), Region.byteAt_store hr rfl hx.1,
            Contents.store, contents_cons_of_covers hx]
        · rw [contents_cons_of_not_covers (mt hiff.mp hx), Contents.store_outside,
            contents_cons_of_not_covers hx]
          unfold Region.Covers at hr hx
          omega
      · rw [if_neg hr]
        -- stored in another region, so that this one holds no byte of it
        have hm := (covers_cons.mp h).resolve_left hr
        have ih := ih (List.pairwise_cons.mp hap).2 hm
        by_cases hx : r.Covers x 1
        · have hout : ¬ (a ≤ x ∧ x < a + data.length) := fun hin =>
            not_covers_of_apart hap hm hin hx
          rw [contents_cons_of_covers hx, Contents.store_outside (by omega),
            contents_cons_of_covers hx]
        · rw [contents_cons_of_not_covers hx, ih, Contents.store, Contents.store,
            contents_cons_of_not_covers hx]

end Memory

namespace Sim.Core

variable {c : Core}

/-- What the memory of the core holds. -/
def contents (c : Core) : Contents :=
  c.memory.contents

/-- Is a block of memory mapped, and is the memory laid out properly? -/
structure Maps (c : Core) (a n : Nat) : Prop where
  apart : Memory.Apart c.memory.layout
  covers : c.memory.covers a n = true

/-- What the core loads from mapped memory is what is there. -/
theorem load_eq {a : Word} {n : Nat} (h : c.Maps a.toNat n) :
    c.load a n = c.contents.slice a.toNat n := by
  obtain ⟨bytes, hload, hval⟩ := Memory.load?_eq h.apart h.covers
  rw [load, hload]
  exact hval

/-- A load has the length that was asked for, mapped or not. -/
@[simp] theorem length_load (c : Core) (a : Word) (n : Nat) : (c.load a n).length = n := by
  rw [load]
  split
  · next bytes _ => exact bytes.property
  · exact List.length_replicate

/-- A word that is loaded is what the four bytes there stand for. -/
theorem loadWord_eq {a : Word} (h : c.Maps a.toNat 4) :
    (c.loadWord a).toNat = c.contents.word c.endian a.toNat := by
  have hlt := c.endian.value_lt (c.contents.slice a.toNat 4)
  rw [Contents.length_slice] at hlt
  rw [loadWord, load_eq h, BitVec.toNat_ofNat, Contents.word]
  exact Nat.mod_eq_of_lt (by omega)

/-- What the core stores in mapped memory is there. -/
theorem contents_store {a : Word} {data : List UInt8} (h : c.Maps a.toNat data.length) :
    (c.store a data).contents = c.contents.store a.toNat data :=
  Memory.contents_store h.apart h.covers

/-- The core moves no region by storing bytes, ... -/
theorem layout_store (c : Core) (a : Word) (data : List UInt8) :
    (c.store a data).memory.layout = c.memory.layout :=
  Memory.layout_store _ _ _

/-- ... a word, ... -/
theorem layout_storeWord (c : Core) (a v : Word) :
    (c.storeWord a v).memory.layout = c.memory.layout :=
  Memory.layout_store _ _ _

/-- ... or a copy of something. -/
theorem layout_copy (c : Core) (src dst : Word) (n : Nat) :
    (c.copy src dst n).memory.layout = c.memory.layout :=
  Memory.layout_store _ _ _

/-- A word that is stored is four bytes in the order of the core. -/
theorem contents_storeWord {a v : Word} (h : c.Maps a.toNat 4) :
    (c.storeWord a v).contents = c.contents.store a.toNat (c.endian.encode 4 v.toNat) := by
  refine contents_store ?_
  rw [Endian.length_encode]
  exact h

/-- A block is copied to where memory is mapped. -/
theorem contents_copy {src dst : Word} {n : Nat} (hs : c.Maps src.toNat n)
    (hd : c.Maps dst.toNat n) :
    (c.copy src dst n).contents = c.contents.store dst.toNat (c.contents.slice src.toNat n) := by
  rw [copy, load_eq hs]
  refine contents_store ?_
  rw [Contents.length_slice]
  exact hd

/-- What is mapped stays mapped while the regions lie where they do. -/
theorem Maps.of_layout {c' : Core} {a n : Nat} (h : c.Maps a n)
    (hl : c'.memory.layout = c.memory.layout) : c'.Maps a n :=
  ⟨hl ▸ h.apart, (Memory.covers_congr hl).trans h.covers⟩

/-- A block is copied, and then a word is stored. -/
theorem contents_copy_storeWord {src dst a v : Word} {n : Nat} (hs : c.Maps src.toNat n)
    (hd : c.Maps dst.toNat n) (ha : c.Maps a.toNat 4) :
    ((c.copy src dst n).storeWord a v).contents =
      (c.contents.store dst.toNat (c.contents.slice src.toNat n)).store a.toNat
        (c.endian.encode 4 v.toNat) := by
  rw [contents_storeWord (ha.of_layout (layout_copy c src dst n)), contents_copy hs hd]
  rfl

end Sim.Core

end DebugLink
