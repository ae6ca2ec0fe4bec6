import DebugLink.Dialogue
import Mathlib.Logic.Relation

/-!
# Environments: who answers, and what happens meanwhile

A dialogue fixes nothing about the far end.  An `Environment` does: its states `W` (a target's
memory, a program running on it, a record of what was seen) may move on their own between any
two operations, and each operation may be answered in some of several ways.

* `Reaches` is every moment of every run: what is left of the dialogue, and the state.
* `wp` is the weakest precondition that makes `I` hold AT EVERY MOMENT and `Q` at the end;
  `wp_bind` takes sequences apart, and `wp_at` / `wp_done_at` lead back to the runs.
* `Lasts` marks what stays true whatever the environment does on its own: the only kind of
  fact that the library can rely on between two operations.
* `cutOff` is how a dialogue ends if the link goes down now, that is to say what the library
  has in its hands at this moment.
-/

namespace DebugLink

open Relation

/-- An environment with states `W`. -/
structure Environment (A : Arch) (W : Type) where
  /-- `moves w w'`: the environment may go from `w` to `w'` on its own, between operations. -/
  moves : W → W → Prop
  /-- `answers w op a w'`: in `w`, the answer to `op` may be `a`, which leaves `w'`. -/
  answers : W → (op : Op A) → op.Answer → W → Prop

namespace Environment

variable {A : Arch} {W α β σ ε : Type}

/-- The moments of the runs that begin with a dialogue and a state. -/
inductive Reaches (env : Environment A W) : Dialogue A α → W → Dialogue A α → W → Prop where
  | refl (d : Dialogue A α) (w : W) : Reaches env d w d w
  | move {d d' : Dialogue A α} {w w' w'' : W} :
      env.moves w w' → Reaches env d w' d' w'' → Reaches env d w d' w''
  | answer {op : Op A} {next : op.Answer → Dialogue A α} {d' : Dialogue A α} {w w' w'' : W}
      (a : op.Answer) : env.answers w op a w' → Reaches env (next a) w' d' w'' →
      Reaches env (.ask op next) w d' w''

/-- `P` stays true whatever the environment does on its own, and `I` holds all the while. -/
structure Lasts (env : Environment A W) (I P : W → Prop) : Prop where
  moves : ∀ {w w' : W}, env.moves w w' → P w → P w'
  holds : ∀ {w : W}, P w → I w

/-- From `w` on, `I` holds at every moment, and `Q` once the dialogue is done. -/
def wp (env : Environment A W) (I : W → Prop) : Dialogue A α → (α → W → Prop) → W → Prop
  | .done a, Q, w => Q a w
  | .ask op next, Q, w => ∀ w', ReflTransGen env.moves w w' →
      I w' ∧ ∀ a w'', env.answers w' op a w'' → env.wp I (next a) Q w''

variable {env : Environment A W} {I P : W → Prop} {Q R : α → W → Prop}

theorem Lasts.star {w w' : W} (hP : env.Lasts I P) (hm : ReflTransGen env.moves w w')
    (h : P w) : P w' := by
  induction hm with
  | refl => exact h
  | tail _ hm ih => exact hP.moves hm ih

/-! ## Rules -/

theorem wp_mono {d : Dialogue A α} {w : W} (h : env.wp I d Q w)
    (hQ : ∀ a w, Q a w → R a w) : env.wp I d R w := by
  induction d generalizing w with
  | done a => exact hQ a w h
  | ask op next ih =>
      intro w' hm
      obtain ⟨hI, hn⟩ := h w' hm
      exact ⟨hI, fun a w'' ha => ih a (hn a w'' ha)⟩

/-- Less may be claimed on the way. -/
theorem wp_weaken {J : W → Prop} (hIJ : ∀ w, I w → J w) {d : Dialogue A α} {w : W}
    (h : env.wp I d Q w) : env.wp J d Q w := by
  induction d generalizing w with
  | done a => exact h
  | ask op next ih =>
      intro w' hm
      obtain ⟨hI, hn⟩ := h w' hm
      exact ⟨hIJ w' hI, fun a w'' ha => ih a (hn a w'' ha)⟩

/-- Two things that hold in the end hold together. -/
theorem wp_and {d : Dialogue A α} {w : W} (h : env.wp I d Q w) (h' : env.wp I d R w) :
    env.wp I d (fun a w => Q a w ∧ R a w) w := by
  induction d generalizing w with
  | done a => exact ⟨h, h'⟩
  | ask op next ih =>
      intro w' hm
      obtain ⟨hI, hn⟩ := h w' hm
      exact ⟨hI, fun a w'' ha => ih a (hn a w'' ha) ((h' w' hm).2 a w'' ha)⟩

/-- What holds of an environment holds of one that does less, seen through a view of its state. -/
theorem wp_of_view {V : Type} {other : Environment A V} {Q : α → V → Prop} (view : W → V)
    (hm : ∀ {w w'}, env.moves w w' → other.moves (view w) (view w'))
    (ha : ∀ {w op a w'}, env.answers w op a w' → other.answers (view w) op a (view w'))
    {d : Dialogue A α} {w : W} (h : other.wp (fun _ => True) d Q (view w)) :
    env.wp (fun _ => True) d (fun a w => Q a (view w)) w := by
  induction d generalizing w with
  | done a => exact h
  | ask op next ih =>
      intro w' hm'
      have hn := (h (view w') (hm'.lift view fun _ _ => hm)).2
      exact ⟨trivial, fun a w'' ha' => ih a (hn a _ (ha ha'))⟩

/-- One after the other. -/
theorem wp_bind (d : Dialogue A α) (f : α → Dialogue A β) {Q : β → W → Prop} {w : W} :
    env.wp I (d >>= f) Q w ↔ env.wp I d (fun a => env.wp I (f a) Q) w := by
  induction d generalizing w with
  | done a => exact Iff.rfl
  | ask op next ih =>
      constructor
      · intro h w' hm
        obtain ⟨hI, hn⟩ := h w' hm
        exact ⟨hI, fun a w'' ha => (ih a).mp (hn a w'' ha)⟩
      · intro h w' hm
        obtain ⟨hI, hn⟩ := h w' hm
        exact ⟨hI, fun a w'' ha => (ih a).mpr (hn a w'' ha)⟩

/-- An operation is performed at a moment of which only a lasting fact is known. -/
theorem wp_ask (hP : env.Lasts I P) {op : Op A} {next : op.Answer → Dialogue A α} {w : W}
    (h : P w) (hn : ∀ w a w', P w → env.answers w op a w' → env.wp I (next a) Q w') :
    env.wp I (.ask op next) Q w := by
  intro w' hm
  have h' : P w' := hP.star hm h
  exact ⟨hP.holds h', fun a w'' ha => hn w' a w'' h' ha⟩

/-- A weakest precondition lasts if the postcondition does. -/
theorem Lasts.wp (hQ : ∀ a, env.Lasts I (Q a)) (d : Dialogue A α) :
    env.Lasts I (env.wp I d Q) := by
  cases d with
  | done a => exact hQ a
  | ask op next =>
      exact ⟨fun hm h w' hm' => h w' (ReflTransGen.head hm hm'),
        fun h => (h _ ReflTransGen.refl).1⟩

/-! ## Back to the runs -/

theorem wp_of_reaches (hQ : ∀ a, env.Lasts I (Q a)) {d d' : Dialogue A α} {w w' : W}
    (hr : env.Reaches d w d' w') (h : env.wp I d Q w) : env.wp I d' Q w' := by
  induction hr with
  | refl => exact h
  | move hm _ ih => exact ih ((Lasts.wp hQ _).moves hm h)
  | answer a ha _ ih => exact ih ((h _ ReflTransGen.refl).2 a _ ha)

/-- What a weakest precondition says of every moment. -/
theorem wp_at (hQ : ∀ a, env.Lasts I (Q a)) {d d' : Dialogue A α} {w w' : W}
    (h : env.wp I d Q w) (hr : env.Reaches d w d' w') : I w' :=
  (Lasts.wp hQ d').holds (wp_of_reaches hQ hr h)

/-- What it says of the end, and of every moment after the end. -/
theorem wp_done_at (hQ : ∀ a, env.Lasts I (Q a)) {d : Dialogue A α} {a : α} {w w' : W}
    (h : env.wp I d Q w) (hr : env.Reaches d w (.done a) w') : Q a w' :=
  wp_of_reaches hQ hr h

theorem Reaches.trans {d d' d'' : Dialogue A α} {w w' w'' : W} (h : env.Reaches d w d' w')
    (h' : env.Reaches d' w' d'' w'') : env.Reaches d w d'' w'' := by
  induction h with
  | refl => exact h'
  | move hm _ ih => exact .move hm (ih h')
  | answer a ha _ ih => exact .answer a ha (ih h')

/-! ## Computations with failure and a local state -/

/-- The rest of a sequence, as what has to hold after its first part. -/
def after (env : Environment A W) (I : W → Prop)
    (f : α → ExceptT ε (StateT σ (Dialogue A)) β) (Q : Except ε β × σ → W → Prop) :
    Except ε α × σ → W → Prop
  | (.ok a, s) => env.wp I ((f a).run.run s) Q
  | (.error e, s) => Q (.error e, s)

@[simp] theorem after_ok {f : α → ExceptT ε (StateT σ (Dialogue A)) β}
    {Q : Except ε β × σ → W → Prop} {a : α} {s : σ} :
    env.after I f Q (.ok a, s) = env.wp I ((f a).run.run s) Q := rfl

/-- One after the other, until the first failure. -/
theorem wp_seq {x : ExceptT ε (StateT σ (Dialogue A)) α}
    {f : α → ExceptT ε (StateT σ (Dialogue A)) β} {Q : Except ε β × σ → W → Prop} {s : σ} {w : W}
    (h : env.wp I (x.run.run s) (env.after I f Q) w) : env.wp I ((x >>= f).run.run s) Q w := by
  simp only [ExceptT.run_bind, StateT.run_bind]
  rw [wp_bind]
  refine wp_mono h ?_
  rintro ⟨a | a, s⟩ w hw
  · exact hw
  · exact hw

theorem Lasts.after {f : α → ExceptT ε (StateT σ (Dialogue A)) β}
    {Q : Except ε β × σ → W → Prop} (hQ : ∀ r, env.Lasts I (Q r)) (r : Except ε α × σ) :
    env.Lasts I (env.after I f Q r) := by
  obtain ⟨a | a, s⟩ := r
  · exact hQ _
  · exact Lasts.wp hQ _

/-- A step that does nothing. -/
theorem wp_pure {a : α} {f : α → ExceptT ε (StateT σ (Dialogue A)) β}
    {Q : Except ε β × σ → W → Prop} {s : σ} {w : W} (h : env.wp I ((f a).run.run s) Q w) :
    env.wp I ((pure a >>= f).run.run s) Q w :=
  wp_seq h

/-- Looking at the local state. -/
theorem wp_get {f : σ → ExceptT ε (StateT σ (Dialogue A)) β} {Q : Except ε β × σ → W → Prop}
    {s : σ} {w : W} (h : env.wp I ((f s).run.run s) Q w) :
    env.wp I ((get >>= f).run.run s) Q w :=
  wp_seq h

/-- Changing the local state. -/
theorem wp_modify {g : σ → σ} {f : PUnit → ExceptT ε (StateT σ (Dialogue A)) β}
    {Q : Except ε β × σ → W → Prop} {s : σ} {w : W}
    (h : env.wp I ((f ⟨⟩).run.run (g s)) Q w) : env.wp I ((modify g >>= f).run.run s) Q w :=
  wp_seq h

/-- A step of the dialogue alone leaves the local state as it is. -/
theorem wp_lift {x : ExceptT ε (Dialogue A) α} {Q : Except ε α × σ → W → Prop} {s : σ} {w : W}
    (h : env.wp I x.run (fun r => Q (r, s)) w) :
    env.wp I ((liftM x : ExceptT ε (StateT σ (Dialogue A)) α).run.run s) Q w :=
  (wp_bind x.run _).mpr h

/-- So does one that cannot fail. -/
theorem wp_liftDialogue {d : Dialogue A α} {Q : Except ε α × σ → W → Prop} {s : σ} {w : W}
    (h : env.wp I d (fun a => Q (.ok a, s)) w) :
    env.wp I ((liftM d : ExceptT ε (StateT σ (Dialogue A)) α).run.run s) Q w := by
  refine (wp_bind (d >>= fun a => pure (a, s)) _).mpr ((wp_bind d _).mpr ?_)
  exact h

/-- A step that cannot fail. -/
theorem wp_liftState {x : StateT σ (Dialogue A) α} {Q : Except ε α × σ → W → Prop} {s : σ} {w : W}
    (h : env.wp I (x.run s) (fun r => Q (.ok r.1, r.2)) w) :
    env.wp I ((liftM x : ExceptT ε (StateT σ (Dialogue A)) α).run.run s) Q w :=
  (wp_bind (x.run s) _).mpr h

/-- A computation that is run to its end, be it a failure. -/
theorem wp_outcome {x : ExceptT ε (StateT σ (Dialogue A)) α}
    {Q : Except ε (Except ε α) × σ → W → Prop} {s : σ} {w : W}
    (h : env.wp I (x.run.run s) (fun r => Q (.ok r.1, r.2)) w) :
    env.wp I ((outcome x).run.run s) Q w :=
  (wp_bind (x.run.run s) _).mpr h

/-- Looking at the local state, where nothing fails. -/
theorem wp_getOnly {f : σ → StateT σ (Dialogue A) β} {Q : β × σ → W → Prop} {s : σ} {w : W}
    (h : env.wp I ((f s).run s) Q w) : env.wp I ((get >>= f).run s) Q w :=
  h

/-- A step of the dialogue alone, where nothing fails. -/
theorem wp_liftOnly {d : Dialogue A α} {Q : α × σ → W → Prop} {s : σ} {w : W}
    (h : env.wp I d (fun a => Q (a, s)) w) :
    env.wp I ((liftM d : StateT σ (Dialogue A) α).run s) Q w :=
  (wp_bind d _).mpr h

/-- One after the other; nothing fails. -/
theorem wp_then {x : StateT σ (Dialogue A) α} {f : α → StateT σ (Dialogue A) β}
    {Q : β × σ → W → Prop} {s : σ} {w : W}
    (h : env.wp I (x.run s) (fun r => env.wp I ((f r.1).run r.2) Q) w) :
    env.wp I ((x >>= f).run s) Q w :=
  (wp_bind (x.run s) _).mpr h

/-- One after the other, until the first failure; there is no local state. -/
theorem wp_andThen {x : ExceptT ε (Dialogue A) α} {f : α → ExceptT ε (Dialogue A) β}
    {Q : Except ε β → W → Prop} {w : W}
    (h : env.wp I x.run (fun r => match r with
      | .ok a => env.wp I (f a).run Q
      | .error e => Q (.error e)) w) : env.wp I (x >>= f).run Q w := by
  rw [ExceptT.run_bind, wp_bind]
  refine wp_mono h ?_
  rintro (a | a) w hw
  · exact hw
  · exact hw

/-- A computation that is run to its end, where there is no local state. -/
theorem wp_outcomeOnly {x : ExceptT ε (Dialogue A) α} {Q : Except ε (Except ε α) → W → Prop}
    {w : W} (h : env.wp I x.run (fun r => Q (.ok r)) w) : env.wp I (outcome x).run Q w :=
  (wp_bind x.run _).mpr h

end Environment

/-! ## When the link goes down -/

/-- How a dialogue ends if from now on every call is refused and the host is shutting down. -/
def Dialogue.cutOff {A : Arch} {α : Type} (order : Endian) : Dialogue A α → α
  | .done a => a
  | .ask (.call _) next => (next (.error .nonFatal)).cutOff order
  | .ask (.feature .endian) next => (next order).cutOff order
  | .ask (.feature .breakpoints) next => (next false).cutOff order
  | .ask (.feature .mmu) next => (next false).cutOff order
  | .ask (.host .now) next => (next 0).cutOff order
  | .ask (.host (.sleep _)) next => (next ()).cutOff order
  | .ask (.host .keepAlive) next => (next ()).cutOff order
  | .ask (.host .shutdownPending) next => (next true).cutOff order
  | .ask (.note _) next => (next ()).cutOff order

end DebugLink
