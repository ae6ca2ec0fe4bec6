import DebugLink.Memory
import DebugLink.Proofs.Endian
import DebugLink.Proofs.Environment

/-!
# The bench: target memory as an environment

`Contents` is what a target's memory holds.  A `Bench` is an environment around such a memory:
reads answer what is there, writes put it there, and any access may be refused instead.  What
else goes on is up to the bench: something on the target may change the memory between two
accesses (`moves`), and the states may keep a record of the accesses (`afterRead`,
`afterWrite`).

The rules below say, access by access, what has to be shown of the state before it.
-/

namespace DebugLink

/-- What memory holds at each address. -/
abbrev Contents := Nat → UInt8

namespace Contents

/-- The `n` bytes at `a`. -/
def slice (m : Contents) (a n : Nat) : List UInt8 :=
  (List.range n).map fun i => m (a + i)

/-- Puts bytes at `a`. -/
def store (m : Contents) (a : Nat) (bs : List UInt8) : Contents :=
  fun x => if a ≤ x then bs.getD (x - a) (m x) else m x

/-- The word at `a`, in a byte order. -/
def word (order : Endian) (m : Contents) (a : Nat) : Nat :=
  order.value (m.slice a 4)

variable {m m' : Contents} {a n : Nat} {bs : List UInt8}

/-- A slice has the length that was asked for. -/
@[simp] theorem length_slice (m : Contents) (a n : Nat) : (m.slice a n).length = n := by
  simp [slice]

/-- It depends on the bytes in it only. -/
theorem slice_congr {a' : Nat} (h : ∀ i < n, m (a + i) = m' (a' + i)) :
    m.slice a n = m'.slice a' n :=
  List.map_congr_left fun i hi => h i (List.mem_range.mp hi)

/-- Memory holds a list of bytes as soon as it holds each of them. -/
theorem slice_eq {l : List UInt8} (hl : l.length = n)
    (h : ∀ i (hi : i < l.length), m (a + i) = l[i]) :
    m.slice a n = l := by
  refine List.ext_getElem (by simp [hl]) ?_
  intro i _ hi
  simp [slice, h i hi]

/-- A slice can be cut in two. -/
theorem slice_add (m : Contents) (a n k : Nat) :
    m.slice a (n + k) = m.slice a n ++ m.slice (a + n) k := by
  simp only [slice, List.range_add, List.map_append, List.map_map, Function.comp_def, Nat.add_assoc]

/-- Part of a block, and the same part of what it holds. -/
theorem slice_part {k t : Nat} (h : k + t ≤ n) :
    ((m.slice a n).drop k).take t = m.slice (a + k) t := by
  obtain ⟨u, rfl⟩ : ∃ u, n = k + (t + u) := ⟨n - (k + t), by omega⟩
  rw [slice_add, slice_add, List.drop_left' (length_slice ..), List.take_left' (length_slice ..)]

/-- Inside, the bytes are those that were stored, ... -/
theorem store_inside {i : Nat} (hi : i < bs.length) : m.store a bs (a + i) = bs[i] := by
  simp [store, hi]

/-- ... and outside they are what they were. -/
theorem store_outside {x : Nat} (h : x < a ∨ a + bs.length ≤ x) : m.store a bs x = m x := by
  rw [store]
  split
  · rw [List.getD_eq_getElem?_getD, List.getElem?_eq_none (by omega)]
    rfl
  · rfl

/-- Putting back what is somewhere else. -/
theorem store_slice_inside {x : Nat} (h : a ≤ x ∧ x < a + n) :
    m.store a (m'.slice a n) x = m' x := by
  obtain ⟨i, rfl⟩ : ∃ i, x = a + i := ⟨x - a, by omega⟩
  rw [store_inside (by rw [length_slice]; omega)]
  simp [slice]

theorem store_slice_outside {x : Nat} (h : ¬(a ≤ x ∧ x < a + n)) :
    m.store a (m'.slice a n) x = m x :=
  store_outside (by rw [length_slice]; omega)

/-- What was stored can be read again. -/
@[simp] theorem slice_store_self (m : Contents) (a : Nat) (bs : List UInt8) :
    (m.store a bs).slice a bs.length = bs :=
  slice_eq rfl fun _ hi => store_inside hi

/-- Stores do not change slices elsewhere. -/
theorem slice_store_of_disjoint {a' : Nat} (h : a' + n ≤ a ∨ a + bs.length ≤ a') :
    (m.store a bs).slice a' n = m.slice a' n :=
  slice_congr fun i hi => store_outside (by omega)

/-- A word that was stored can be read again, in the same byte order. -/
theorem word_store_self (order : Endian) (m : Contents) (a : Nat) {v : Nat} (hv : v < 0x100000000) :
    word order (m.store a (order.encode 4 v)) a = v := by
  have h := slice_store_self m a (order.encode 4 v)
  rw [Endian.length_encode] at h
  rw [word, h, Endian.value_encode, Nat.mod_eq_of_lt (by omega)]

/-- Stores do not change words elsewhere. -/
theorem word_store_of_disjoint (order : Endian) {a' : Nat}
    (h : a' + 4 ≤ a ∨ a + bs.length ≤ a') : word order (m.store a bs) a' = word order m a' := by
  rw [word, slice_store_of_disjoint h, word]

theorem word_congr (order : Endian) (h : ∀ i < 4, m (a + i) = m' (a + i)) :
    word order m a = word order m' a := by
  rw [word, slice_congr h, word]

end Contents

/-- An environment around a memory. -/
structure Bench (W : Type) where
  order : Endian
  memory : W → Contents
  /-- What happens on its own. -/
  moves : W → W → Prop
  /-- The state after the library has read `n` bytes at `a`. -/
  afterRead : W → Nat → Nat → W := fun w _ _ => w
  /-- The state after the library has written some bytes at `a`. -/
  afterWrite : W → Nat → List UInt8 → W
  /-- The states that a refused write may leave behind. -/
  refuses : W → Nat → List UInt8 → W → Prop

namespace Bench

variable {A : Arch} {W α : Type} (b : Bench W)

/-- Reads and writes act on the memory, questions about the byte order are answered truly, and
    everything else may be answered in any way. -/
def answers (w : W) : (op : Op A) → op.Answer → W → Prop
  | .call (.read a n), .ok bytes, w' =>
      bytes.val = (b.memory w).slice a.toNat n ∧ w' = b.afterRead w a.toNat n
  | .call (.write a bs), .ok _, w' => w' = b.afterWrite w a.toNat bs
  | .call (.write a bs), .error _, w' => b.refuses w a.toNat bs w'
  | .feature .endian, order, w' => order = b.order ∧ w' = w
  | _, _, w' => w' = w

/-- The bench as an environment. -/
def env (A : Arch) : Environment A W where
  moves := b.moves
  answers := b.answers

variable {b : Bench W} {I P : W → Prop}

open Environment

/-! ## Rules -/

/-- A note leaves the state as it is. -/
theorem wp_note {Q : α → W → Prop} (hP : (b.env A).Lasts I P) {n : Note}
    {next : Unit → Dialogue A α} {w : W} (h : P w)
    (hn : ∀ w, P w → (b.env A).wp I (next ()) Q w) :
    (b.env A).wp I (.ask (.note n) next) Q w := by
  refine wp_ask hP h ?_
  rintro _ _ w hw rfl
  exact hn w hw

/-- So does a request to the host. -/
theorem wp_host {Q : α → W → Prop} (hP : (b.env A).Lasts I P) {r : HostRequest}
    {next : r.Answer → Dialogue A α} {w : W} (h : P w)
    (hn : ∀ a w, P w → (b.env A).wp I (next a) Q w) :
    (b.env A).wp I (.ask (.host r) next) Q w := by
  refine wp_ask hP h ?_
  rintro _ a w hw rfl
  exact hn a w hw

/-- The byte order is told truly. -/
theorem wp_endian {Q : α → W → Prop} (hP : (b.env A).Lasts I P)
    {next : Endian → Dialogue A α} {w : W} (h : P w)
    (hn : ∀ w, P w → (b.env A).wp I (next b.order) Q w) :
    (b.env A).wp I (.ask (.feature .endian) next) Q w := by
  refine wp_ask hP h ?_
  rintro w _ _ hw ⟨rfl, rfl⟩
  exact hn _ hw

/-- Reading a word gives the word that is there, or fails. -/
theorem wp_readWord {Q : Except Error Nat → W → Prop} (hQ : ∀ r, (b.env A).Lasts I (Q r))
    (hP : (b.env A).Lasts I P) {a : A.Addr} {w : W} (h : P w)
    (ok : ∀ v w, P w → v = (b.memory w).word b.order a.toNat →
      Q (.ok v) (b.afterRead w a.toNat 4))
    (err : ∀ e w, P w → Q (.error (.ofTarget e)) w) :
    (b.env A).wp I (readWord .full a).run Q w := by
  rw [readWord]
  refine wp_andThen (wp_ask hP h ?_)
  rintro w (e | bytes) w' hw ha
  · obtain rfl := ha
    exact wp_note hP hw fun w hw => err e w hw
  · obtain ⟨hb, rfl⟩ := ha
    have hv : b.order.value bytes.val = (b.memory w).word b.order a.toNat := by
      rw [Contents.word, hb]
      rfl
    refine wp_endian (hQ _) (ok _ w hw hv) ?_
    intro w hw
    exact wp_note (hQ _) hw fun w hw => hw

/-- Writing a word stores it, or fails. -/
theorem wp_writeWord {Q : Except Error Unit → W → Prop} (hP : (b.env A).Lasts I P)
    {a : A.Addr} {v : Nat} {w : W} (h : P w)
    (ok : ∀ w, P w → Q (.ok ()) (b.afterWrite w a.toNat (b.order.encode 4 v)))
    (err : ∀ e w w', P w → b.refuses w a.toNat (b.order.encode 4 v) w' →
      Q (.error (.ofTarget e)) w') :
    (b.env A).wp I (writeWord .full a v).run Q w := by
  rw [writeWord]
  refine wp_andThen (wp_endian hP h ?_)
  intro w hw
  refine wp_note hP hw ?_
  intro w hw
  refine wp_ask hP hw ?_
  rintro w (e | _) w' hw ha
  · exact err e w w' hw ha
  · obtain rfl := ha
    exact ok w hw

/-- Reading a buffer gives what is there, or fails; an empty one is not looked at. -/
theorem wp_readBuffer {n : Nat} {Q : Except Error (Bytes n) → W → Prop}
    (hP : (b.env A).Lasts I P) {a : A.Addr} {w : W} (h : P w)
    (ok : ∀ bytes w, P w → bytes.val = (b.memory w).slice a.toNat n → n ≠ 0 →
      Q (.ok bytes) (b.afterRead w a.toNat n))
    (empty : ∀ bytes w, P w → n = 0 → Q (.ok bytes) w)
    (wraps : ∀ w, P w → ¬ Arch.Fits a n → Q (.error (.addressWrap a.toNat n)) w)
    (err : ∀ e w, P w → Q (.error (.ofTarget e)) w) :
    (b.env A).wp I (readBuffer a n).run Q w := by
  rw [readBuffer]
  refine wp_andThen (wp_note hP h ?_)
  intro w hw
  show (b.env A).wp I (ExceptT.run (if h : n = 0 then pure ⟨[], h.symm⟩ else _)) Q w
  split
  · -- nothing is to be read, and nothing is asked
    next hn => exact empty _ w hw hn
  · next hn =>
    refine wp_andThen ?_
    rw [checkFits]
    split
    · refine wp_ask hP hw ?_
      rintro w (e | bytes) w' hw ha
      · obtain rfl := ha
        exact err e w' hw
      · obtain ⟨hb, rfl⟩ := ha
        exact ok bytes w hw hb hn
    · next hf => exact wp_note hP hw fun w hw => wraps w hw hf

/-- Writing a buffer stores all of it, or fails; an empty one is not written. -/
theorem wp_writeBuffer {bs : List UInt8} {Q : Except Error Unit → W → Prop}
    (hP : (b.env A).Lasts I P) {a : A.Addr} {w : W} (h : P w)
    (ok : ∀ w, P w → Q (.ok ()) (b.afterWrite w a.toNat bs))
    (empty : ∀ w, P w → bs = [] → Q (.ok ()) w)
    (wraps : ∀ w, P w → ¬ Arch.Fits a bs.length →
      Q (.error (.addressWrap a.toNat bs.length)) w)
    (err : ∀ e w w', P w → b.refuses w a.toNat bs w' → Q (.error (.ofTarget e)) w') :
    (b.env A).wp I (writeBuffer a bs).run Q w := by
  rw [writeBuffer]
  refine wp_andThen (wp_note hP h ?_)
  intro w hw
  show (b.env A).wp I (ExceptT.run (if bs = [] then pure () else _)) Q w
  split
  · next hn => exact empty w hw hn
  · refine wp_andThen ?_
    rw [checkFits]
    split
    · refine wp_ask hP hw ?_
      rintro w (e | _) w' hw ha
      · exact err e w w' hw ha
      · obtain rfl := ha
        exact ok w hw
    · next hf => exact wp_note hP hw fun w hw => wraps w hw hf

/-! ## When the link goes down -/

/-- On a bench where any access may be refused without a trace, every moment of a run may be
    the last before the link goes down. -/
theorem reaches_cutOff (hr : ∀ w a bs, b.refuses w a bs w) (d : Dialogue A α) (w : W) :
    (b.env A).Reaches d w (.done (d.cutOff b.order)) w := by
  -- every call is refused, so each operation has an answer that ends it
  induction d with
  | done a => exact .refl _ _
  | ask op next ih =>
      cases op with
      | call c =>
          refine .answer (.error .nonFatal) ?_ (ih _)
          cases c with
          | write a bs => exact hr w a.toNat bs
          | _ => exact rfl
      | feature f =>
          cases f with
          | endian => exact .answer b.order ⟨rfl, rfl⟩ (ih _)
          | breakpoints => exact .answer false rfl (ih _)
          | mmu => exact .answer false rfl (ih _)
      | host r =>
          cases r with
          | now => exact .answer 0 rfl (ih _)
          | sleep ms => exact .answer () rfl (ih _)
          | keepAlive => exact .answer () rfl (ih _)
          | shutdownPending => exact .answer true rfl (ih _)
      | note n => exact .answer () rfl (ih _)

end Bench

end DebugLink
