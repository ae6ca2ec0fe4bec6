import DebugLink.Proofs.Transcript
import DebugLink.Target
import DebugLink.Transfer.Basic
import Mathlib.Algebra.Group.Nat.Defs

/-!
# Playing a dialogue against a target and a host

A target and a host determine a run.  `played` is the environment that answers as they do, and
`run_of_wp` turns what its weakest precondition says into a statement about the run; as every
dialogue ends, this is TOTAL correctness.

The rules say what an access means once it is known how the target answers it (`hplay`); they
hold of every target.
-/

namespace DebugLink

open Environment

variable {A : Arch} {α σ η : Type}

/-- How a target and a host answer an operation. -/
def play (t : Target A σ) (h : Host η) : (op : Op A) → σ × η → op.Answer × (σ × η)
  | .call c, w => ((t.perform c w.1).answer, ((t.perform c w.1).state, w.2))
  | .feature f, w => (t.feature w.1 f, w)
  | .host r, w => ((h.perform r w.2).1, (w.1, (h.perform r w.2).2))
  | .note _, w => ((), w)

/-- A target and a host as an environment. -/
def played (t : Target A σ) (h : Host η) : Environment A (σ × η) where
  moves _ _ := False
  answers w op a w' := play t h op w = (a, w')

/-- On the target `t` and the host `h`, `d` ends in `Q`. -/
abbrev Plays (t : Target A σ) (h : Host η) (d : Dialogue A α) (Q : α → σ × η → Prop)
    (w : σ × η) : Prop :=
  (played t h).wp (fun _ => True) d Q w

variable {t : Target A σ} {h : Host η} {w w' : σ × η} {Q : α → σ × η → Prop}

theorem wp_played {op : Op A} {next : op.Answer → Dialogue A α}
    (hn : Plays t h (next (play t h op w).1) Q (play t h op w).2) :
    Plays t h (.ask op next) Q w := by
  have hP : (played t h).Lasts (fun _ => True) (· = w) := ⟨fun hm => hm.elim, fun _ => trivial⟩
  refine wp_ask hP rfl ?_
  rintro _ a w' rfl ha
  obtain ⟨rfl, rfl⟩ := Prod.mk.inj ha
  exact hn

/-- What holds in the end holds of the run. -/
theorem run_of_wp {d : Dialogue A α} {x : σ} {y : η} (hwp : Plays t h d Q (x, y))
    (notes : Array Note) :
    Q (d.run t h ⟨x, y, notes⟩).1
      ((d.run t h ⟨x, y, notes⟩).2.target, (d.run t h ⟨x, y, notes⟩).2.host) := by
  induction d generalizing x y notes with
  | done a => exact hwp
  | ask op next ih =>
      have hnext := (hwp _ Relation.ReflTransGen.refl).2 _ _ rfl
      cases op with
      | call c => exact ih _ hnext _
      | feature f => exact ih _ hnext _
      | host r => exact ih _ hnext _
      | note n => exact ih _ hnext _

/-- What operations in `K` keep is kept by a dialogue that performs no others. -/
theorem plays_within {K : Op A → Prop} {P : σ × η → Prop} {R : α → Prop} {d : Dialogue A α}
    (hd : d.Within K R) (hK : ∀ op w, K op → P w → P (play t h op w).2) (hw : P w) :
    Plays t h d (fun a w => R a ∧ P w) w := by
  induction d generalizing w with
  | done a => exact ⟨hd, hw⟩
  | ask op next ih => exact wp_played (ih _ (hd.2 _) (hK op w hd.1 hw))

/-! ## Accesses -/

/-- An operation whose answer is known. -/
theorem plays_ask {op : Op A} {a : op.Answer} {next : op.Answer → Dialogue A α}
    (hplay : play t h op w = (a, w')) (hn : Plays t h (next a) Q w') :
    Plays t h (.ask op next) Q w := by
  refine wp_played ?_
  rw [hplay]
  exact hn

/-- A note goes nowhere. -/
theorem plays_note {note : Note} {next : Unit → Dialogue A α} (hn : Plays t h (next ()) Q w) :
    Plays t h (.ask (.note note) next) Q w :=
  wp_played hn

/-- Reading a word. -/
theorem plays_readWord {a : A.Addr} {bytes : Bytes 4} {Q : Except Error Nat → σ × η → Prop}
    (hplay : play t h (.call (.read a 4)) w = (.ok bytes, w'))
    (hn : Q (.ok ((t.endian w'.1).value bytes.val)) w') :
    Plays t h (readWord .full a).run Q w := by
  rw [readWord]
  exact wp_andThen (plays_ask hplay (wp_played (plays_note hn)))

/-- Writing a word. -/
theorem plays_writeWord {a : A.Addr} {v : Nat} {Q : Except Error Unit → σ × η → Prop}
    (hplay : play t h (.call (.write a ((t.endian w.1).encode 4 v))) w = (.ok (), w'))
    (hn : Q (.ok ()) w') : Plays t h (writeWord .full a v).run Q w := by
  rw [writeWord]
  exact wp_andThen (wp_played (plays_note (plays_ask hplay hn)))

/-- Reading a buffer. -/
theorem plays_readBuffer {a : A.Addr} {n : Nat} {bytes : Bytes n}
    {Q : Except Error (Bytes n) → σ × η → Prop} (hpos : 0 < n) (hfits : Arch.Fits a n)
    (hplay : play t h (.call (.read a n)) w = (.ok bytes, w')) (hn : Q (.ok bytes) w') :
    Plays t h (readBuffer a n).run Q w := by
  rw [readBuffer]
  refine wp_andThen (plays_note ?_)
  show Plays t h (ExceptT.run (if h : n = 0 then (pure ⟨[], h.symm⟩ : Link A (Bytes n)) else _)) _ _
  rw [dif_neg (Nat.ne_of_gt hpos)]
  refine wp_andThen ?_
  rw [checkFits, if_pos hfits]
  exact plays_ask hplay hn

/-- Writing a buffer. -/
theorem plays_writeBuffer {a : A.Addr} {data : List UInt8}
    {Q : Except Error Unit → σ × η → Prop} (hne : data ≠ []) (hfits : Arch.Fits a data.length)
    (hplay : play t h (.call (.write a data)) w = (.ok (), w')) (hn : Q (.ok ()) w') :
    Plays t h (writeBuffer a data).run Q w := by
  rw [writeBuffer]
  refine wp_andThen (plays_note ?_)
  show Plays t h (ExceptT.run (if data = [] then (pure () : Link A Unit) else _)) _ _
  rw [if_neg hne]
  refine wp_andThen ?_
  rw [checkFits, if_pos hfits]
  exact plays_ask hplay hn

/-! ## The parts of a transfer -/

namespace Engine

variable {e : Engine} {flow : Flow} {p : Progress}

theorem plays_address {n : Nat} {Q : Except Error A.Addr → σ × η → Prop}
    (hlt : n < 2 ^ A.width) (hn : ∀ a : A.Addr, a.toNat = n → Q (.ok a) w) :
    Plays t h (address n).run Q w := by
  have ha : A.addr? n = some (BitVec.ofNat A.width n) :=
    if_pos (by rw [BitVec.toNat_allOnes]; omega)
  rw [address, ha]
  exact hn _ (A.toNat_of_addr? ha)

/-- A pointer that the partner could have published passes. -/
theorem plays_checkPointer {ptr : Nat} {Q : Except Error Unit × Progress → σ × η → Prop}
    (hv : e.ring.isValidPtr ptr = true) (hne : ptr ≠ 0) (hn : Q (.ok (), p) w) :
    Plays t h ((e.checkPointer flow ptr : StreamM A Unit).run.run p) Q w := by
  rw [checkPointer]
  simp only [hne, hv, Bool.not_true, ↓reduceIte]
  exact hn

/-- A zero means that the partner has given up. -/
theorem plays_checkPointer_zero {Q : Except Error Unit × Progress → σ × η → Prop}
    (hn : Q (.error .operationFailed, p) w) :
    Plays t h ((e.checkPointer flow 0 : StreamM A Unit).run.run p) Q w :=
  wp_seq (plays_note hn)

/-- The partner's pointer is the word that the target answers. -/
theorem plays_partnerPointer {a : A.Addr} {bytes : Bytes 4}
    {Q : Except Error Nat × Progress → σ × η → Prop}
    (hplay : play t h (.call (.read a 4)) w = (.ok bytes, w'))
    (hn : Q (.ok ((t.endian w'.1).value bytes.val), p) w') :
    Plays t h ((partnerPointer flow a).run.run p) Q w :=
  wp_seq (wp_outcome (wp_lift (plays_readWord hplay hn)))

/-- Storing a pointer. -/
theorem plays_putPointer {place value : Nat} {Q : Except Error Unit → σ × η → Prop}
    (hlt : place < 2 ^ A.width) (hn : ∀ a : A.Addr, a.toNat = place → ∃ w',
      play t h (.call (.write a ((t.endian w.1).encode 4 value))) w = (.ok (), w') ∧
        Q (.ok ()) w') :
    Plays t h (putPointer (A := A) place value).run Q w := by
  refine wp_andThen (plays_address hlt fun a ha => ?_)
  obtain ⟨w', hplay, hQ⟩ := hn a ha
  exact plays_writeWord hplay hQ

end Engine

end DebugLink
