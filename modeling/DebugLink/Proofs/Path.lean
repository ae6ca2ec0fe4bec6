import DebugLink.Proofs.Transcript

/-!
# Paths: what is asked on the way to the end

`d.Path log a` says that `d`, answered as in `log`, is done with `a`.  A path of a sequence is a
path of its first part and one of its second (`path_bind`), and no two paths of a dialogue begin
alike (`Path.unique`).

`env.Plays w log w'` says that an environment can give just these answers, and goes from `w` to
`w'` meanwhile.  A RUN IN ANY ENVIRONMENT IS A PATH THAT THE ENVIRONMENT CAN PLAY
(`reaches_iff_plays`): what a dialogue does and what the environment makes of it can be looked at
apart.
-/

namespace DebugLink

variable {A : Arch} {W α β σ ε : Type}

/-- Answered as in `log`, the dialogue is done with `x`. -/
inductive Dialogue.Path : Dialogue A α → Transcript A → α → Prop
  | done (x : α) : Path (.done x) [] x
  | ask {op : Op A} {next : op.Answer → Dialogue A α} {log : Transcript A} {x : α}
      (a : op.Answer) : Path (next a) log x → Path (.ask op next) (⟨op, a⟩ :: log) x

namespace Dialogue

theorem path_done {log : Transcript A} {x y : α} :
    (Dialogue.done x).Path log y ↔ log = [] ∧ x = y :=
  ⟨fun h => by cases h; exact ⟨rfl, rfl⟩, fun ⟨hlog, hx⟩ => hlog ▸ hx ▸ .done x⟩

/-- One after the other. -/
theorem path_bind {d : Dialogue A α} {f : α → Dialogue A β} {log : Transcript A} {y : β} :
    (d >>= f).Path log y ↔ ∃ l₁ l₂ x, log = l₁ ++ l₂ ∧ d.Path l₁ x ∧ (f x).Path l₂ y := by
  constructor
  · intro h
    induction d generalizing log with
    | done x => exact ⟨[], log, x, rfl, .done x, h⟩
    | ask op next ih =>
        cases h with
        | ask a h =>
            obtain ⟨l₁, l₂, x, rfl, h₁, h₂⟩ := ih a h
            exact ⟨⟨op, a⟩ :: l₁, l₂, x, rfl, .ask a h₁, h₂⟩
  · rintro ⟨l₁, l₂, x, rfl, h₁, h₂⟩
    induction h₁ with
    | done x => exact h₂
    | ask a _ ih => exact .ask a (ih h₂)

/-- The first answer, and the rest. -/
theorem path_ask {op : Op A} {next : op.Answer → Dialogue A α} {log : Transcript A} {x : α} :
    (Dialogue.ask op next).Path log x ↔ ∃ a rest, log = ⟨op, a⟩ :: rest ∧ (next a).Path rest x := by
  constructor
  · intro h
    cases h with
    | ask a h => exact ⟨a, _, rfl, h⟩
  · rintro ⟨a, rest, rfl, h⟩
    exact .ask a h

/-- One after the other, until the first failure. -/
theorem path_seq {x : ExceptT ε (StateT σ (Dialogue A)) α}
    {f : α → ExceptT ε (StateT σ (Dialogue A)) β} {s : σ} {log : Transcript A}
    {y : Except ε β × σ} (h : ((x >>= f).run.run s).Path log y) :
    (∃ l₁ l₂ a s', log = l₁ ++ l₂ ∧ (x.run.run s).Path l₁ (.ok a, s') ∧
        ((f a).run.run s').Path l₂ y) ∨
      ∃ e s', y = (.error e, s') ∧ (x.run.run s).Path log (.error e, s') := by
  simp only [ExceptT.run_bind, StateT.run_bind] at h
  obtain ⟨l₁, l₂, ⟨e | a, s'⟩, rfl, h₁, h₂⟩ := path_bind.mp h
  · obtain ⟨rfl, rfl⟩ := path_done.mp h₂
    exact Or.inr ⟨e, s', rfl, by rwa [List.append_nil]⟩
  · exact Or.inl ⟨l₁, l₂, a, s', rfl, h₁, h₂⟩

/-- A path of the first part without a failure, and one of the second. -/
theorem path_andThen {x : ExceptT ε (StateT σ (Dialogue A)) α}
    {f : α → ExceptT ε (StateT σ (Dialogue A)) β} {s s' : σ} {a : α} {l₁ l₂ : Transcript A}
    {y : Except ε β × σ} (h₁ : (x.run.run s).Path l₁ (.ok a, s'))
    (h₂ : ((f a).run.run s').Path l₂ y) : ((x >>= f).run.run s).Path (l₁ ++ l₂) y := by
  simp only [ExceptT.run_bind, StateT.run_bind]
  exact path_bind.mpr ⟨l₁, l₂, (.ok a, s'), rfl, h₁, h₂⟩

/-- Looking at the local state. -/
theorem path_get {f : σ → ExceptT ε (StateT σ (Dialogue A)) β} {s : σ} {log : Transcript A}
    {y : Except ε β × σ} :
    ((get >>= f).run.run s).Path log y ↔ ((f s).run.run s).Path log y :=
  Iff.rfl

/-- A step that cannot fail and leaves the local state alone. -/
theorem path_liftDialogue {d : Dialogue A α} {s : σ} {log : Transcript A} {y : Except ε α × σ} :
    ((liftM d : ExceptT ε (StateT σ (Dialogue A)) α).run.run s).Path log y ↔
      ∃ x, y = (.ok x, s) ∧ d.Path log x := by
  constructor
  · intro h
    obtain ⟨l, none, y', rfl, hl, hnone⟩ := path_bind.mp h
    obtain ⟨l, none', x, rfl, hd, hnone'⟩ := path_bind.mp hl
    obtain ⟨rfl, rfl⟩ := path_done.mp hnone'
    obtain ⟨rfl, rfl⟩ := path_done.mp hnone
    exact ⟨x, rfl, by rwa [List.append_nil, List.append_nil]⟩
  · rintro ⟨x, rfl, h⟩
    refine path_bind.mpr ⟨log, [], (x, s), (List.append_nil _).symm, ?_, .done _⟩
    exact path_bind.mpr ⟨log, [], x, (List.append_nil _).symm, h, .done _⟩

/-- A step that may fail, and leaves the local state alone. -/
theorem path_lift {x : ExceptT ε (Dialogue A) α} {s : σ} {log : Transcript A}
    {y : Except ε α × σ} :
    ((liftM x : ExceptT ε (StateT σ (Dialogue A)) α).run.run s).Path log y ↔
      ∃ r, y = (r, s) ∧ x.run.Path log r := by
  constructor
  · intro h
    obtain ⟨l, none, r, rfl, h, hnone⟩ := path_bind.mp h
    obtain ⟨rfl, rfl⟩ := path_done.mp hnone
    exact ⟨r, rfl, by rwa [List.append_nil]⟩
  · rintro ⟨r, rfl, h⟩
    exact path_bind.mpr ⟨log, [], r, (List.append_nil _).symm, h, .done _⟩

/-- A computation that is run to its end, be it a failure, and what comes after it. -/
theorem path_outcome {x : ExceptT ε (StateT σ (Dialogue A)) α}
    {f : Except ε α → ExceptT ε (StateT σ (Dialogue A)) β} {s : σ} {log : Transcript A}
    {y : Except ε β × σ} (h : ((outcome x >>= f).run.run s).Path log y) :
    ∃ l₁ l₂ r s', log = l₁ ++ l₂ ∧ (x.run.run s).Path l₁ (r, s') ∧
      ((f r).run.run s').Path l₂ y := by
  simp only [ExceptT.run_bind, StateT.run_bind] at h
  obtain ⟨_, l₂, _, rfl, hx, h₂⟩ := path_bind.mp h
  obtain ⟨l₁, none, ⟨r, s'⟩, rfl, h₁, hnone⟩ := path_bind.mp hx
  obtain ⟨rfl, rfl⟩ := path_done.mp hnone
  exact ⟨l₁, l₂, r, s', by rw [List.append_nil], h₁, h₂⟩

/-- A path of a computation, be it a failure, and one of what comes after it. -/
theorem path_outcomeThen {x : ExceptT ε (StateT σ (Dialogue A)) α}
    {f : Except ε α → ExceptT ε (StateT σ (Dialogue A)) β} {s s' : σ} {r : Except ε α}
    {l₁ l₂ : Transcript A} {y : Except ε β × σ} (h₁ : (x.run.run s).Path l₁ (r, s'))
    (h₂ : ((f r).run.run s').Path l₂ y) : ((outcome x >>= f).run.run s).Path (l₁ ++ l₂) y := by
  refine path_andThen ?_ h₂
  exact path_bind.mpr ⟨l₁, [], (r, s'), (List.append_nil l₁).symm, h₁, .done _⟩

/-- What is known of every path is known of this one. -/
theorem Within.path {K : Op A → Prop} {Q : α → Prop} {d : Dialogue A α} {log : Transcript A}
    {x : α} (hd : d.Within K Q) (h : d.Path log x) : (∀ event ∈ log, K event.op) ∧ Q x := by
  induction h with
  | done x => exact ⟨fun _ hm => absurd hm List.not_mem_nil, hd⟩
  | ask a _ ih =>
      obtain ⟨hlog, hx⟩ := ih (hd.2 a)
      refine ⟨fun event hm => ?_, hx⟩
      rcases List.mem_cons.mp hm with rfl | hm
      · exact hd.1
      · exact hlog event hm

/-- The answers decide how a dialogue goes on: of two paths neither is the beginning of the
    other. -/
theorem Path.unique {d : Dialogue A α} {l l' more more' : Transcript A} {x x' : α}
    (h : d.Path l x) (h' : d.Path l' x') (heq : l ++ more = l' ++ more') : l = l' ∧ x = x' := by
  induction h generalizing l' with
  | done x =>
      cases h'
      exact ⟨rfl, rfl⟩
  | ask a _ ih =>
      cases h' with
      | ask a' h' =>
          obtain ⟨hevent, hlog⟩ := List.cons.inj heq
          cases hevent
          obtain ⟨rfl, hx⟩ := ih h' hlog
          exact ⟨rfl, hx⟩

/-- What was answered decides how it ends. -/
theorem Path.same_end {d : Dialogue A α} {l : Transcript A} {x x' : α} (h : d.Path l x)
    (h' : d.Path l x') : x = x' :=
  (h.unique h' (rfl : l ++ [] = l ++ [])).2

/-- A path is found answer by answer. -/
theorem path_answer {op : Op A} {next : op.Answer → Dialogue A α} {x : α} (a : op.Answer)
    (h : ∃ log, (next a).Path log x) : ∃ log, (Dialogue.ask op next).Path log x := by
  obtain ⟨log, h⟩ := h
  exact ⟨_, .ask a h⟩

/-- The same for a path whose transcript is of a kind. -/
theorem path_answer_such {op : Op A} {next : op.Answer → Dialogue A α} {x : α}
    {P : Transcript A → Prop} (a : op.Answer)
    (h : ∃ log, (next a).Path log x ∧ P (⟨op, a⟩ :: log)) :
    ∃ log, (Dialogue.ask op next).Path log x ∧ P log := by
  obtain ⟨log, h, hlog⟩ := h
  exact ⟨_, .ask a h, hlog⟩

/-- Every path is a run on the recorder. -/
theorem Path.reaches {d : Dialogue A α} {log : Transcript A} {x : α} (h : d.Path log x)
    (before : Transcript A) : (recorder A).Reaches d before (.done x) (before ++ log) := by
  induction h generalizing before with
  | done x =>
      rw [List.append_nil]
      exact .refl _ _
  | @ask op _ log _ a _ ih =>
      rw [List.append_cons before ⟨op, a⟩ log]
      exact .answer a rfl (ih _)

/-- Every finished run on the recorder is a path. -/
theorem Path.of_reaches {d : Dialogue A α} {x : α} {before log : Transcript A}
    (h : (recorder A).Reaches d before (.done x) log) : ∃ l, log = before ++ l ∧ d.Path l x := by
  obtain ⟨d', hd'⟩ : ∃ d', d' = Dialogue.done x := ⟨_, rfl⟩
  rw [← hd'] at h
  induction h with
  | refl d log => exact ⟨[], (List.append_nil log).symm, hd' ▸ .done x⟩
  | move hm _ _ => exact hm.elim
  | answer a ha _ ih =>
      obtain ⟨l, rfl, hpath⟩ := ih hd'
      exact ⟨_, by rw [show _ = _ from ha, List.append_assoc]; rfl, .ask a hpath⟩

end Dialogue

/-! ## Answers that depend on the past alone -/

/-- A target and a host, whose answers depend on what was asked before. -/
abbrev Responder (A : Arch) := Transcript A → (op : Op A) → op.Answer

/-- These are the answers that it gives, after `before`. -/
def Responder.GivesAfter (responder : Responder A) (before : Transcript A) :
    Transcript A → Prop
  | [] => True
  | event :: log =>
    event.answer = responder before event.op ∧ responder.GivesAfter (before ++ [event]) log

/-- These are the answers that it gives. -/
abbrev Responder.Gives (responder : Responder A) (log : Transcript A) : Prop :=
  responder.GivesAfter [] log

namespace Dialogue

/-- Given the same answers, it goes the same way. -/
theorem Path.given {responder : Responder A} {d : Dialogue A α} {before l l' : Transcript A}
    {x x' : α} (h : d.Path l x) (h' : d.Path l' x') (hl : responder.GivesAfter before l)
    (hl' : responder.GivesAfter before l') : l = l' ∧ x = x' := by
  induction h generalizing before l' with
  | done x =>
      cases h'
      exact ⟨rfl, rfl⟩
  | ask a _ ih =>
      cases h' with
      | ask a' h' =>
          obtain ⟨ha, hrest⟩ := hl
          obtain ⟨ha', hrest'⟩ := hl'
          obtain rfl : a = a' := ha.trans ha'.symm
          obtain ⟨rfl, hx⟩ := ih h' hrest hrest'
          exact ⟨rfl, hx⟩

/-- Every dialogue comes to an end. -/
theorem path_of_responder (responder : Responder A) (d : Dialogue A α) :
    ∀ before, ∃ log x, d.Path log x ∧ responder.GivesAfter before log := by
  induction d with
  | done x => exact fun _ => ⟨[], x, .done x, trivial⟩
  | ask op next ih =>
      intro before
      obtain ⟨log, x, hpath, hgives⟩ :=
        ih (responder before op) (before ++ [⟨op, responder before op⟩])
      exact ⟨_, x, .ask _ hpath, rfl, hgives⟩

end Dialogue

/-- What a weakest precondition on the recorder says of the end of a path. -/
theorem Transcript.wp_path {I : Transcript A → Prop} {Q : α → Transcript A → Prop}
    (hQ : ∀ x log, Q x log → I log) {d : Dialogue A α} {log before : Transcript A} {x : α}
    (h : (recorder A).wp I d Q before) (hpath : d.Path log x) : Q x (before ++ log) :=
  Environment.wp_done_at (fun x => lasts (hQ x)) h (hpath.reaches before)

namespace Environment

variable {env : Environment A W}

/-- The environment gives the answers of `log`, and goes from one state to the other. -/
inductive Plays (env : Environment A W) : W → Transcript A → W → Prop
  | nil (w : W) : Plays env w [] w
  | move {w w' w'' : W} {log : Transcript A} :
      env.moves w w' → Plays env w' log w'' → Plays env w log w''
  | event {w w' w'' : W} {log : Transcript A} (event : Event A) :
      env.answers w event.op event.answer w' → Plays env w' log w'' →
      Plays env w (event :: log) w''

/-- One part of a transcript after the other. -/
theorem plays_append {w w'' : W} {l₁ l₂ : Transcript A} :
    env.Plays w (l₁ ++ l₂) w'' ↔ ∃ w', env.Plays w l₁ w' ∧ env.Plays w' l₂ w'' := by
  constructor
  · intro h
    obtain ⟨log, hlog⟩ : ∃ log, log = l₁ ++ l₂ := ⟨_, rfl⟩
    rw [← hlog] at h
    induction h generalizing l₁ with
    | nil w =>
        obtain ⟨rfl, rfl⟩ := List.append_eq_nil_iff.mp hlog.symm
        exact ⟨w, .nil w, .nil w⟩
    | move hm _ ih =>
        obtain ⟨w', h₁, h₂⟩ := ih hlog
        exact ⟨w', .move hm h₁, h₂⟩
    | event event ha hrest ih =>
        cases l₁ with
        | nil =>
            obtain rfl : event :: _ = l₂ := hlog
            exact ⟨_, .nil _, .event event ha hrest⟩
        | cons event' l₁ =>
            obtain ⟨rfl, hrest⟩ := List.cons.inj hlog
            obtain ⟨w', h₁, h₂⟩ := ih hrest
            exact ⟨w', .event event ha h₁, h₂⟩
  · rintro ⟨w', h₁, h₂⟩
    induction h₁ with
    | nil w => exact h₂
    | move hm _ ih => exact .move hm (ih h₂)
    | event event ha _ ih => exact .event event ha (ih h₂)

/-- What the environment and all operations in `K` leave true. -/
theorem Plays.keeps {K : Event A → Prop} {P : W → Prop} {w w' : W} {log : Transcript A}
    (h : env.Plays w log w') (hmove : ∀ {w w'}, env.moves w w' → P w → P w')
    (hevent : ∀ {w w'} {event : Event A}, K event → env.answers w event.op event.answer w' →
      P w → P w')
    (hlog : ∀ event ∈ log, K event) (hw : P w) : P w' := by
  induction h with
  | nil w => exact hw
  | move hm _ ih => exact ih hlog (hmove hm hw)
  | event event ha _ ih =>
      obtain ⟨hK, hlog⟩ := List.forall_mem_cons.mp hlog
      exact ih hlog (hevent hK ha hw)

/-- The first event of a transcript. -/
theorem Plays.first {w w'' : W} {event : Event A} {log : Transcript A}
    (h : env.Plays w (event :: log) w'') :
    ∃ w₁ w₂, env.Plays w [] w₁ ∧ env.answers w₁ event.op event.answer w₂ ∧
      env.Plays w₂ log w'' := by
  obtain ⟨all, hall⟩ : ∃ all, all = event :: log := ⟨_, rfl⟩
  rw [← hall] at h
  induction h with
  | nil w => cases hall
  | move hm _ ih =>
      obtain ⟨w₁, w₂, hbefore, ha, hafter⟩ := ih hall
      exact ⟨w₁, w₂, .move hm hbefore, ha, hafter⟩
  | event event' ha hafter _ =>
      obtain ⟨rfl, rfl⟩ := List.cons.inj hall
      exact ⟨_, _, .nil _, ha, hafter⟩

/-- The moment of an event. -/
theorem Plays.at {w w'' : W} {before after : Transcript A} {event : Event A}
    (h : env.Plays w (before ++ event :: after) w'') :
    ∃ w₁ w₂, env.Plays w before w₁ ∧ env.answers w₁ event.op event.answer w₂ ∧
      env.Plays w₂ after w'' := by
  obtain ⟨w', hbefore, hrest⟩ := plays_append.mp h
  obtain ⟨w₁, w₂, hmoves, ha, hafter⟩ := hrest.first
  have hmoved : env.Plays w (before ++ []) w₁ := plays_append.mpr ⟨w', hbefore, hmoves⟩
  rw [List.append_nil] at hmoved
  exact ⟨w₁, w₂, hmoved, ha, hafter⟩

/-- A run to the end is a path that the environment can play. -/
theorem reaches_iff_plays {d : Dialogue A α} {x : α} {w w' : W} :
    env.Reaches d w (.done x) w' ↔ ∃ log, d.Path log x ∧ env.Plays w log w' := by
  constructor
  · intro h
    obtain ⟨d', hd'⟩ : ∃ d', d' = Dialogue.done x := ⟨_, rfl⟩
    rw [← hd'] at h
    induction h with
    | refl d w => exact ⟨[], hd' ▸ .done x, .nil w⟩
    | move hm _ ih =>
        obtain ⟨log, hpath, hplays⟩ := ih hd'
        exact ⟨log, hpath, .move hm hplays⟩
    | answer a ha _ ih =>
        obtain ⟨log, hpath, hplays⟩ := ih hd'
        exact ⟨_, .ask a hpath, .event ⟨_, a⟩ ha hplays⟩
  · rintro ⟨log, hpath, hplays⟩
    induction hplays generalizing d with
    | nil w =>
        cases hpath
        exact .refl _ _
    | move hm _ ih => exact .move hm (ih hpath)
    | event event ha _ ih =>
        cases hpath with
        | ask a hpath => exact .answer a ha (ih hpath)

/-- An environment that has an answer to everything leads every dialogue to its end. -/
theorem path_of_answers (h : ∀ w (op : Op A), ∃ a w', env.answers w op a w') (d : Dialogue A α) :
    ∀ w, ∃ log x w', d.Path log x ∧ env.Plays w log w' := by
  induction d with
  | done x => exact fun w => ⟨[], x, w, .done x, .nil w⟩
  | ask op next ih =>
      intro w
      obtain ⟨a, w₁, ha⟩ := h w op
      obtain ⟨log, x, w', hpath, hplays⟩ := ih a w₁
      exact ⟨_, x, w', .ask a hpath, .event ⟨op, a⟩ ha hplays⟩

end Environment

end DebugLink
