import DebugLink.Memory
import DebugLink.Proofs.Path
import DebugLink.Proofs.Area.Operations

/-!
# The calls on a path

Of all that happens on a path, the target sees the calls.  `Transcript.exchanges` keeps these, each
with its answer, and leaves out what is reported, what is asked about the target, and what is asked
of the host.

`callLog` is the environment that writes down JUST THAT.  It is any target and any host, like
`recorder`, but it does not see notes, so that what `Tame` says of an environment applies; what it
has written down in the end is what a path has exchanged (`path_callLog`).

* `wp_readBuffer_calls`, `wp_writeBuffer_calls`: an access inside the address space is one call.
* `Reaches.bind`: a run of a first part is a run of the whole.
-/

namespace DebugLink

open Environment

variable {A : Arch} {W α β : Type}

/-- A call, and how the target answered it. -/
structure Exchange (A : Arch) where
  call : Call A
  answer : Except TargetError call.Answer

/-- The target did what it was asked to. -/
def Exchange.granted (x : Exchange A) : Bool :=
  x.answer.isOk

/-- The call that was made, if it was one. -/
def Event.exchange? : Event A → Option (Exchange A)
  | ⟨.call call, answer⟩ => some { call, answer }
  | _ => none

namespace Transcript

/-- The calls that were made, and how they were answered. -/
def exchanges (log : Transcript A) : List (Exchange A) :=
  log.filterMap Event.exchange?

@[simp] theorem exchanges_nil : exchanges ([] : Transcript A) = [] := rfl

/-- Calls are read off in their order. -/
@[simp] theorem exchanges_append (log more : Transcript A) :
    exchanges (log ++ more) = exchanges log ++ exchanges more :=
  List.filterMap_append

@[simp] theorem exchanges_note (n : Note) (log : Transcript A) :
    exchanges (⟨.note n, ()⟩ :: log) = exchanges log := rfl

end Transcript

/-- Any target and any host; only calls are written down. -/
def callLog (A : Arch) : Environment A (List (Exchange A)) where
  moves _ _ := False
  answers calls op a calls' := calls' = calls ++ (Event.exchange? ⟨op, a⟩).toList

/-- Notes are no calls. -/
theorem callLog_tame : Areas.Tame (callLog A) where
  still := fun h => h
  note := fun h => h.trans (List.append_nil _)

/-- Whatever is answered, it can be written down. -/
theorem callLog_plays (log : Transcript A) (calls : List (Exchange A)) :
    (callLog A).Plays calls log (calls ++ log.exchanges) := by
  induction log generalizing calls with
  | nil =>
      rw [Transcript.exchanges_nil, List.append_nil]
      exact .nil calls
  | cons event log ih =>
      have hexchanges : Transcript.exchanges (event :: log) =
          event.exchange?.toList ++ Transcript.exchanges log := by
        rw [Transcript.exchanges, List.filterMap_cons]
        cases event.exchange? <;> rfl
      rw [hexchanges, ← List.append_assoc]
      exact .event event rfl (ih _)

/-- What a weakest precondition on the calls says of the end of a path. -/
theorem path_callLog {Q : α → List (Exchange A) → Prop} {d : Dialogue A α} {log : Transcript A}
    {x : α} (h : (callLog A).wp (fun _ => True) d Q []) (hpath : d.Path log x) :
    Q x log.exchanges := by
  have hrun : (callLog A).Reaches d [] (.done x) log.exchanges :=
    reaches_iff_plays.mpr ⟨log, hpath, callLog_plays log []⟩
  exact callLog_tame.reached (fun _ _ _ => trivial) h hrun

section Accesses

variable {calls : List (Exchange A)}

/-- One operation. -/
theorem wp_callLog {op : Op A} {next : op.Answer → Dialogue A α} {Q : α → List (Exchange A) → Prop}
    (h : ∀ a, (callLog A).wp (fun _ => True) (next a) Q
      (calls ++ (Event.exchange? ⟨op, a⟩).toList)) :
    (callLog A).wp (fun _ => True) (.ask op next) Q calls := by
  have hlast : (callLog A).Lasts (fun _ => True) fun c => c = calls :=
    callLog_tame.lasts fun _ _ => trivial
  refine wp_ask hlast rfl ?_
  rintro _ a _ rfl rfl
  exact h a

/-- Reading somewhere inside the address space is one call. -/
theorem wp_readBuffer_calls {a : A.Addr} {n : Nat}
    {Q : Except Error (Bytes n) → List (Exchange A) → Prop}
    (hpos : 0 < n) (hfits : Arch.Fits a n)
    (h : ∀ r : Except TargetError (Bytes n), Q (r.mapError .ofTarget) (calls ++ [⟨.read a n, r⟩])) :
    (callLog A).wp (fun _ => True) (readBuffer a n).run Q calls := by
  rw [readBuffer]
  refine wp_andThen (callLog_tame.wp_note trivial ?_)
  show (callLog A).wp _
    (ExceptT.run (if h : n = 0 then pure ⟨[], h.symm⟩ else _)) Q calls
  rw [dif_neg (Nat.ne_of_gt hpos), checkFits, if_pos hfits]
  refine wp_callLog ?_
  rintro (e | bytes)
  · exact h (.error e)
  · exact h (.ok bytes)

/-- Writing something somewhere inside the address space is one call. -/
theorem wp_writeBuffer_calls {a : A.Addr} {bs : List UInt8}
    {Q : Except Error Unit → List (Exchange A) → Prop} (hpos : 0 < bs.length)
    (hfits : Arch.Fits a bs.length)
    (h : ∀ r : Except TargetError Unit, Q (r.mapError .ofTarget) (calls ++ [⟨.write a bs, r⟩])) :
    (callLog A).wp (fun _ => True) (writeBuffer a bs).run Q calls := by
  rw [writeBuffer]
  refine wp_andThen (callLog_tame.wp_note trivial ?_)
  show (callLog A).wp _ (ExceptT.run (if bs = [] then pure () else _)) Q calls
  rw [if_neg (List.ne_nil_of_length_pos hpos), checkFits, if_pos hfits]
  refine wp_callLog ?_
  rintro (e | _)
  · exact h (.error e)
  · exact h (.ok ())

end Accesses

/-- A run of the first part is a run of the whole. -/
theorem Environment.Reaches.bind {env : Environment A W} {d d' : Dialogue A α} {w w' : W}
    (h : env.Reaches d w d' w') (f : α → Dialogue A β) :
    env.Reaches (d >>= f) w (d' >>= f) w' := by
  induction h with
  | refl d w => exact .refl _ _
  | move hm _ ih => exact .move hm ih
  | answer a ha _ ih => exact .answer a ha ih

end DebugLink
