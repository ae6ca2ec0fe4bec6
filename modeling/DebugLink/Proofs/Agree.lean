import DebugLink.Proofs.Environment

/-!
# Dialogues that nobody can tell apart

Two dialogues `Agree` if they ask THE SAME IN THE SAME ORDER as long as they are answered the same,
and what they end in is related.  Whoever answers them, be it two equal targets, sees no difference.

A report may differ in one thing: of a free block it need not say whether something is still saved
for it (`Note.shown`).

* `Agree.bind` and `Agree.seq` take sequences apart; `Both` relates how two computations with
  failure and a local state end: both in the same failure, or both without one.
* `Agree.and_wp` adds what is known of each of the two on its own; `Agree.self_wp` leads back from
  a dialogue that agrees with itself to what it ends in.
-/

namespace DebugLink

variable {A : Arch} {W α β γ δ σ τ ε : Type}

/-- A note that does not say whether something is saved for a free block. -/
def Note.shown : Note → Note
  | .block _ true first last size => .block false true first last size
  | n => n

namespace Dialogue

/-- They ask the same in the same order, and end in what is related. -/
inductive Agree (R : α → β → Prop) : Dialogue A α → Dialogue A β → Prop
  | done {x : α} {y : β} : R x y → Agree R (.done x) (.done y)
  | note {n n' : Note} {next : Unit → Dialogue A α} {next' : Unit → Dialogue A β} :
      n.shown = n'.shown → Agree R (next ()) (next' ()) →
      Agree R (.ask (.note n) next) (.ask (.note n') next')
  | ask {op : Op A} {next : op.Answer → Dialogue A α} {next' : op.Answer → Dialogue A β} :
      (∀ a, Agree R (next a) (next' a)) → Agree R (.ask op next) (.ask op next')

/-- Both succeed in related ways, or both fail in the same way with related local states. -/
inductive Both (R : α × σ → β × τ → Prop) (S : σ → τ → Prop) :
    Except ε α × σ → Except ε β × τ → Prop
  | ok {a : α} {b : β} {s : σ} {t : τ} : R (a, s) (b, t) → Both R S (.ok a, s) (.ok b, t)
  | error {s : σ} {t : τ} (e : ε) : S s t → Both R S (.error e, s) (.error e, t)

namespace Agree

variable {R : α → β → Prop}

/-- A dialogue agrees with itself. -/
theorem refl {R : α → α → Prop} (hR : ∀ x, R x x) (d : Dialogue A α) : Agree R d d := by
  induction d with
  | done x => exact .done (hR x)
  | ask op next ih => exact .ask ih

theorem mono {R' : α → β → Prop} {d : Dialogue A α} {d' : Dialogue A β} (h : Agree R d d')
    (hR : ∀ x y, R x y → R' x y) : Agree R' d d' := by
  induction h with
  | done hxy => exact .done (hR _ _ hxy)
  | note hn _ ih => exact .note hn ih
  | ask _ ih => exact .ask ih

/-- One after the other. -/
theorem bind {Q : γ → δ → Prop} {d : Dialogue A α} {d' : Dialogue A β} {f : α → Dialogue A γ}
    {f' : β → Dialogue A δ} (h : Agree R d d') (hf : ∀ x y, R x y → Agree Q (f x) (f' y)) :
    Agree Q (d >>= f) (d' >>= f') := by
  induction h with
  | done hxy => exact hf _ _ hxy
  | note hn _ ih => exact .note hn ih
  | ask _ ih => exact .ask ih

/-- One after the other, until the first failure. -/
theorem seq {R : α × σ → β × τ → Prop} {R' : γ × σ → δ × τ → Prop} {S : σ → τ → Prop}
    {x : ExceptT ε (StateT σ (Dialogue A)) α} {x' : ExceptT ε (StateT τ (Dialogue A)) β}
    {f : α → ExceptT ε (StateT σ (Dialogue A)) γ} {f' : β → ExceptT ε (StateT τ (Dialogue A)) δ}
    {s : σ} {t : τ} (h : Agree (Both R S) (x.run.run s) (x'.run.run t))
    (hf : ∀ a s b t, R (a, s) (b, t) → Agree (Both R' S) ((f a).run.run s) ((f' b).run.run t)) :
    Agree (Both R' S) ((x >>= f).run.run s) ((x' >>= f').run.run t) := by
  simp only [ExceptT.run_bind, StateT.run_bind]
  refine h.bind ?_
  rintro _ _ (hR | ⟨e, hS⟩)
  · exact hf _ _ _ _ hR
  · exact .done (.error e hS)

section Rules

variable {R : γ × σ → δ × τ → Prop} {S : σ → τ → Prop} {s : σ} {t : τ}
  {f : α → ExceptT ε (StateT σ (Dialogue A)) γ} {f' : α → ExceptT ε (StateT τ (Dialogue A)) δ}

/-- Looking at the local states. -/
theorem get_bind {f : σ → ExceptT ε (StateT σ (Dialogue A)) γ}
    {f' : τ → ExceptT ε (StateT τ (Dialogue A)) δ}
    (h : Agree (Both R S) ((f s).run.run s) ((f' t).run.run t)) :
    Agree (Both R S) ((get >>= f).run.run s) ((get >>= f').run.run t) :=
  h

/-- Changing the local states. -/
theorem modify_bind {g : σ → σ} {g' : τ → τ} {f : PUnit → ExceptT ε (StateT σ (Dialogue A)) γ}
    {f' : PUnit → ExceptT ε (StateT τ (Dialogue A)) δ}
    (h : Agree (Both R S) ((f ⟨⟩).run.run (g s)) ((f' ⟨⟩).run.run (g' t))) :
    Agree (Both R S) ((modify g >>= f).run.run s) ((modify g' >>= f').run.run t) :=
  h

/-- Reporting the same, as far as it shows. -/
theorem note_bind {n n' : Note} {f : Unit → ExceptT ε (StateT σ (Dialogue A)) γ}
    {f' : Unit → ExceptT ε (StateT τ (Dialogue A)) δ} (hn : n.shown = n'.shown)
    (h : Agree (Both R S) ((f ()).run.run s) ((f' ()).run.run t)) :
    Agree (Both R S) ((DebugLink.note n >>= f).run.run s)
      ((DebugLink.note n' >>= f').run.run t) :=
  .note hn h

/-- The same step of the dialogue alone leaves the local states as they are. -/
theorem alone (d : Dialogue A α) (s : σ) (t : τ) :
    Agree (fun r r' => r.1 = r'.1 ∧ r.2 = s ∧ r'.2 = t) (d >>= fun a => pure (a, s))
      (d >>= fun a => pure (a, t)) := by
  refine (refl (fun _ => rfl) d).bind ?_
  rintro a _ rfl
  exact .done ⟨rfl, rfl, rfl⟩

theorem link_bind {x : ExceptT ε (Dialogue A) α} (err : S s t)
    (ok : ∀ a, Agree (Both R S) ((f a).run.run s) ((f' a).run.run t)) :
    Agree (Both R S) ((liftM x >>= f).run.run s) ((liftM x >>= f').run.run t) := by
  refine (alone x.run s t).bind ?_
  rintro ⟨e | a, _⟩ ⟨_, _⟩ ⟨rfl, rfl, rfl⟩
  · exact .done (.error e err)
  · exact ok a

/-- The same, run to its end, be it a failure. -/
theorem outcome_bind {x : ExceptT ε (Dialogue A) α}
    {f : Except ε α → ExceptT ε (StateT σ (Dialogue A)) γ}
    {f' : Except ε α → ExceptT ε (StateT τ (Dialogue A)) δ}
    (h : ∀ r, Agree (Both R S) ((f r).run.run s) ((f' r).run.run t)) :
    Agree (Both R S) ((DebugLink.outcome (liftM x) >>= f).run.run s)
      ((DebugLink.outcome (liftM x) >>= f').run.run t) := by
  refine ((alone x.run s t).bind (Q := fun r r' => ∃ a, r = (.ok a, s) ∧ r' = (.ok a, t))
    ?_).bind ?_
  · rintro ⟨r, _⟩ ⟨_, _⟩ ⟨rfl, rfl, rfl⟩
    exact .done ⟨r, rfl, rfl⟩
  · rintro _ _ ⟨r, rfl, rfl⟩
    exact h r

/-- Looking at the local states, where nothing fails. -/
theorem get_then {R : γ × σ → δ × τ → Prop} {f : σ → StateT σ (Dialogue A) γ}
    {f' : τ → StateT τ (Dialogue A) δ} (h : Agree R ((f s).run s) ((f' t).run t)) :
    Agree R ((get >>= f).run s) ((get >>= f').run t) :=
  h

/-- The same step of the dialogue alone, where nothing fails. -/
theorem dialogue_then {R : γ × σ → δ × τ → Prop} {d : Dialogue A α}
    {f : α → StateT σ (Dialogue A) γ} {f' : α → StateT τ (Dialogue A) δ}
    (h : ∀ a, Agree R ((f a).run s) ((f' a).run t)) :
    Agree R ((liftM d >>= f).run s) ((liftM d >>= f').run t) := by
  refine (alone d s t).bind ?_
  rintro ⟨a, _⟩ ⟨_, _⟩ ⟨rfl, rfl, rfl⟩
  exact h a

end Rules

/-- A computation that is run to its end, be it a failure. -/
theorem outcome {R : α × σ → β × τ → Prop} {S : σ → τ → Prop} {Q : σ → τ → Prop}
    {x : ExceptT ε (StateT σ (Dialogue A)) α} {x' : ExceptT ε (StateT τ (Dialogue A)) β}
    {s : σ} {t : τ} (h : Agree (Both R S) (x.run.run s) (x'.run.run t)) :
    Agree (Both (Both R S) Q) ((DebugLink.outcome x).run.run s)
      ((DebugLink.outcome x').run.run t) :=
  h.bind fun _ _ hxy => .done (.ok hxy)

/-- A step of the dialogue alone that cannot fail. -/
theorem liftDialogue {R : α × σ → β × τ → Prop} {S : σ → τ → Prop} {d : Dialogue A α}
    {d' : Dialogue A β} {s : σ} {t : τ} (h : Agree (fun a b => R (a, s) (b, t)) d d') :
    Agree (Both R S) ((liftM d : ExceptT ε (StateT σ (Dialogue A)) α).run.run s)
      ((liftM d' : ExceptT ε (StateT τ (Dialogue A)) β).run.run t) := by
  have hpair : Agree R (d >>= fun a => pure (a, s)) (d' >>= fun b => pure (b, t)) :=
    h.bind fun _ _ hab => .done hab
  exact hpair.bind fun _ _ hxy => .done (.ok hxy)

/-- A step that cannot fail. -/
theorem liftState {R : α × σ → β × τ → Prop} {S : σ → τ → Prop} {x : StateT σ (Dialogue A) α}
    {x' : StateT τ (Dialogue A) β} {s : σ} {t : τ} (h : Agree R (x.run s) (x'.run t)) :
    Agree (Both R S) ((liftM x : ExceptT ε (StateT σ (Dialogue A)) α).run.run s)
      ((liftM x' : ExceptT ε (StateT τ (Dialogue A)) β).run.run t) :=
  h.bind fun _ _ hxy => .done (.ok hxy)

/-- What a dialogue ends in is related to itself if it agrees with itself. -/
theorem self_wp {env : Environment A W} {I : W → Prop} {R : α → α → Prop} {d : Dialogue A α}
    {w : W} (h : Agree R d d) (hI : ∀ w, I w) : env.wp I d (fun x _ => R x x) w := by
  induction d generalizing w with
  | done x =>
      cases h with
      | done hx => exact hx
  | ask op next ih =>
      refine fun w' _ => ⟨hI w', fun a w'' _ => ih a ?_⟩
      cases h with
      | ask h => exact h a
      | note _ h => exact h

/-- What is known of each of the two on its own, in an environment that has an answer to
    everything. -/
theorem and_wp {env : Environment A W} {I : W → Prop} {Q : α → W → Prop} {Q' : β → W → Prop}
    (answers : ∀ w (op : Op A) (a : op.Answer), ∃ w', env.answers w op a w') {d : Dialogue A α}
    {d' : Dialogue A β} (h : Agree R d d') {w w' : W} (hd : env.wp I d Q w)
    (hd' : env.wp I d' Q' w') :
    Agree (fun x y => R x y ∧ (∃ w, Q x w) ∧ ∃ w, Q' y w) d d' := by
  induction h generalizing w w' with
  | done hxy => exact .done ⟨hxy, ⟨w, hd⟩, ⟨w', hd'⟩⟩
  | @note n n' next next' hn _ ih =>
      obtain ⟨v, hv⟩ := answers w (.note n) ()
      obtain ⟨v', hv'⟩ := answers w' (.note n') ()
      exact .note hn (ih ((hd w .refl).2 () v hv) ((hd' w' .refl).2 () v' hv'))
  | @ask op _ _ _ ih =>
      refine .ask fun a => ?_
      obtain ⟨v, hv⟩ := answers w op a
      obtain ⟨v', hv'⟩ := answers w' op a
      exact ih a ((hd w .refl).2 a v hv) ((hd' w' .refl).2 a v' hv')

end Agree

end Dialogue

end DebugLink
