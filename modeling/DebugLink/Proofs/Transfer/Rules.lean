import DebugLink.Proofs.Bench
import DebugLink.Transfer.Read

/-!
# Rules for the parts of a transfer

One rule for each step that both directions share.  All of them run on any bench; `P` is what is
known of the state beforehand, and lasts.
-/

namespace DebugLink.Engine

open Environment

variable {A : Arch} {W α : Type} {b : Bench W} {I P : W → Prop} {w : W} {p : Progress}

/-- An address that the core does not have is a failure; the target is not asked. -/
theorem wp_address {n : Nat} {Q : Except Error A.Addr → W → Prop}
    (ok : ∀ a, A.addr? n = some a → Q (.ok a) w)
    (err : A.addr? n = none →
      Q (.error (.invalidRing "buffer lies outside the target's address space")) w) :
    (b.env A).wp I (address n).run Q w := by
  rw [address]
  cases ha : A.addr? n with
  | some a => exact ok a ha
  | none => exact err ha

/-- The partner's pointer is the word that is there at that moment. -/
theorem wp_partnerPointer {flow : Flow} {a : A.Addr} {Q : Except Error Nat × Progress → W → Prop}
    (hQ : ∀ r, (b.env A).Lasts I (Q r)) (hP : (b.env A).Lasts I P) (h : P w)
    (ok : ∀ v w, P w → v = (b.memory w).word b.order a.toNat →
      Q (.ok v, p) (b.afterRead w a.toNat 4))
    (err : ∀ e w, P w → Q (.error (.ofTarget e), p) w) :
    (b.env A).wp I ((partnerPointer flow a).run.run p) Q w := by
  rw [partnerPointer]
  refine wp_seq (wp_outcome (wp_lift ?_))
  refine Bench.wp_readWord (fun r => Lasts.after hQ (.ok r, p)) hP h ?_ ?_
  · intro v w hw hv
    exact ok v w hw hv
  · intro e w hw
    exact Bench.wp_note hP hw fun w hw => err e w hw

/-- A pointer that passes is one that the partner could have published. -/
theorem wp_checkPointer {e : Engine} {flow : Flow} {ptr : Nat}
    {Q : Except Error Unit × Progress → W → Prop} (hP : (b.env A).Lasts I P) (h : P w)
    (ok : e.ring.isValidPtr ptr = true → ∀ w, P w → Q (.ok (), p) w)
    (zero : ptr = 0 → ∀ w, P w → Q (.error .operationFailed, p) w)
    (bad : ptr ≠ 0 → e.ring.isValidPtr ptr = false →
      ∀ w, P w → Q (.error (.corruptedPointer ptr), p) w) :
    (b.env A).wp I ((e.checkPointer flow ptr : StreamM A Unit).run.run p) Q w := by
  rw [checkPointer]
  by_cases hz : ptr = 0
  · simp only [hz, ↓reduceIte]
    exact Bench.wp_note hP h fun w hw => zero hz w hw
  · cases hv : e.ring.isValidPtr ptr with
    | true =>
        simp only [hz, Bool.not_true, ↓reduceIte]
        exact ok hv w h
    | false =>
        simp only [hz, Bool.not_false, ↓reduceIte]
        exact Bench.wp_note hP h fun w hw => bad hz hv w hw

/-- Counting costs no access. -/
theorem wp_countChunk {len : Nat} {wrapped : Bool} {Q : Except Error Unit × Progress → W → Prop}
    (ok : Q (.ok (), { p with stats :=
      { p.stats with
        bytes := p.stats.bytes + len
        chunks := p.stats.chunks + 1
        wraps := p.stats.wraps + wrapped.toUInt32 } }) w) :
    (b.env A).wp I ((countChunk len wrapped : StreamM A Unit).run.run p) Q w :=
  ok

/-- What was received comes behind the rest. -/
theorem wp_receive {bs : List UInt8} {Q : Except Error Unit × Progress → W → Prop}
    (ok : Q (.ok (), { p with received := p.received ++ bs }) w) :
    (b.env A).wp I ((receive bs : StreamM A Unit).run.run p) Q w :=
  ok

/-- The host may want to stop. -/
theorem wp_giveWay {Q : Except Error Unit × Progress → W → Prop} (hP : (b.env A).Lasts I P)
    (h : P w) (ok : ∀ w, P w → Q (.ok (), p) w)
    (shutdown : ∀ w, P w → Q (.error .interrupted, p) w) :
    (b.env A).wp I ((giveWay : StreamM A Unit).run.run p) Q w := by
  refine Bench.wp_host hP h ?_
  intro _ w hw
  refine Bench.wp_host hP hw ?_
  rintro (_ | _) w hw
  · exact ok w hw
  · exact shutdown w hw

/-- It may want that after a pause, too. -/
theorem wp_backOff {e : Engine} {Q : Except Error Unit × Progress → W → Prop}
    (hP : (b.env A).Lasts I P) (h : P w) (ok : ∀ w, P w → Q (.ok (), p) w)
    (shutdown : ∀ w, P w → Q (.error .interrupted, p) w) :
    (b.env A).wp I ((e.backOff : StreamM A Unit).run.run p) Q w := by
  refine Bench.wp_host hP h ?_
  intro _ w hw
  exact wp_giveWay hP hw ok shutdown

end DebugLink.Engine
