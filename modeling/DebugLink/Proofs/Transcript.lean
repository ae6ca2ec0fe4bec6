import DebugLink.Proofs.Environment

/-!
# Transcripts: what is asked, whoever answers

`recorder` is the environment that answers anything at all and writes down every operation with
its answer.  A statement about its runs is a statement about every target and every host.

Long stretches of a computation matter only for what they do NOT do.  `Within K d Q` says that
every path of `d` performs operations of the kind `K` alone and ends in `Q`; `Confined K view x`
says it of a computation with a local state, which `view` does not see change.  Both are built
up along the `do` blocks, and `wp_within` turns them into a step of a run on the recorder.

`reaches_cutOff` says that the link may go down at every moment of a run.
-/

namespace DebugLink

variable {A : Arch} {α β σ τ ε : Type}

/-- An operation and its answer. -/
structure Event (A : Arch) where
  op : Op A
  answer : op.Answer

/-- What was asked so far, and what was answered. -/
abbrev Transcript (A : Arch) := List (Event A)

/-- Any target and any host, with a transcript. -/
def recorder (A : Arch) : Environment A (Transcript A) where
  moves _ _ := False
  answers log op a log' := log' = log ++ [⟨op, a⟩]

/-- An event of a transcript is the last one, or comes before that. -/
theorem Transcript.split_last {log before after : Transcript A} {last event : Event A}
    (h : log ++ [last] = before ++ event :: after) :
    log = before ∧ last = event ∧ after = [] ∨
      ∃ after', log = before ++ event :: after' ∧ after = after' ++ [last] := by
  rcases List.eq_nil_or_concat after with rfl | ⟨after, last', rfl⟩
  · obtain ⟨hlog, hlast⟩ := List.append_inj' h rfl
    exact Or.inl ⟨hlog, (List.cons.inj hlast).1, rfl⟩
  · rw [List.concat_eq_append, ← List.cons_append, ← List.append_assoc] at h
    obtain ⟨hlog, hlast⟩ := List.append_inj' h rfl
    obtain rfl := (List.cons.inj hlast).1
    exact Or.inr ⟨after, hlog, List.concat_eq_append⟩

/-! ## Paths -/

/-- Every path performs operations in `K` alone, and ends in `Q`. -/
def Dialogue.Within (K : Op A → Prop) : Dialogue A α → (α → Prop) → Prop
  | .done a, Q => Q a
  | .ask op next, Q => K op ∧ ∀ a, (next a).Within K Q

/-- A path with an end that nothing is said about. -/
abbrev Dialogue.Only (K : Op A → Prop) (d : Dialogue A α) : Prop :=
  d.Within K fun _ => True

namespace Dialogue

variable {K : Op A → Prop} {Q R : α → Prop}

/-- Less can be said of the result. -/
theorem Within.mono {d : Dialogue A α} (h : d.Within K Q) (hQ : ∀ a, Q a → R a) :
    d.Within K R := by
  induction d with
  | done a => exact hQ a h
  | ask op next ih => exact ⟨h.1, fun a => ih a (h.2 a)⟩

/-- Less can be said of the operations. -/
theorem Within.weaken {L : Op A → Prop} (hKL : ∀ op, K op → L op) {d : Dialogue A α}
    (h : d.Within K Q) : d.Within L Q := by
  induction d with
  | done a => exact h
  | ask op next ih => exact ⟨hKL op h.1, fun a => ih a (h.2 a)⟩

/-- What is said of the result is what the rest begins with. -/
theorem Within.bind {d : Dialogue A α} {f : α → Dialogue A β} {Q : β → Prop}
    (h : d.Within K fun a => (f a).Within K Q) : (d >>= f).Within K Q := by
  induction d with
  | done a => exact h
  | ask op next ih => exact ⟨h.1, fun a => ih a (h.2 a)⟩

/-- One after the other, until the first failure. -/
theorem Within.seq {x : ExceptT ε (StateT σ (Dialogue A)) α}
    {f : α → ExceptT ε (StateT σ (Dialogue A)) β} {Q : Except ε β × σ → Prop} {s : σ}
    (h : (x.run.run s).Within K fun r => match r with
      | (.ok a, s) => ((f a).run.run s).Within K Q
      | (.error e, s) => Q (.error e, s)) : ((x >>= f).run.run s).Within K Q := by
  simp only [ExceptT.run_bind, StateT.run_bind]
  refine Within.bind (h.mono ?_)
  rintro ⟨e | a, s⟩ hs
  · exact hs
  · exact hs

/-- Looking at the local state. -/
theorem Within.get {f : σ → ExceptT ε (StateT σ (Dialogue A)) β} {Q : Except ε β × σ → Prop}
    {s : σ} (h : ((f s).run.run s).Within K Q) : ((get >>= f).run.run s).Within K Q :=
  .seq h

/-- A computation that is run to its end, be it a failure. -/
theorem Within.outcome {x : ExceptT ε (StateT σ (Dialogue A)) α}
    {Q : Except ε (Except ε α) × σ → Prop} {s : σ}
    (h : (x.run.run s).Within K fun r => Q (.ok r.1, r.2)) :
    ((outcome x).run.run s).Within K Q :=
  Within.bind h

/-- A step of the dialogue alone leaves the local state as it is. -/
theorem Within.liftDialogue {d : Dialogue A α} {Q : Except ε α × σ → Prop} {s : σ}
    (h : d.Within K fun a => Q (.ok a, s)) :
    ((liftM d : ExceptT ε (StateT σ (Dialogue A)) α).run.run s).Within K Q :=
  Within.bind (Within.bind h)

/-- So does one that may fail. -/
theorem Within.lift {x : ExceptT ε (Dialogue A) α} {Q : Except ε α × σ → Prop} {s : σ}
    (h : x.run.Within K fun r => Q (r, s)) :
    ((liftM x : ExceptT ε (StateT σ (Dialogue A)) α).run.run s).Within K Q :=
  Within.bind h

/-- Nothing is said about a dialogue at all. -/
theorem only_any (d : Dialogue A α) : d.Only fun _ => True := by
  induction d with
  | done a => trivial
  | ask op next ih => exact ⟨trivial, ih⟩

/-- A step that may fail, and what comes after it. -/
theorem Only.andThen {x : ExceptT ε (Dialogue A) α} {f : α → ExceptT ε (Dialogue A) β}
    (hx : x.run.Only K) (hf : ∀ a, (f a).run.Only K) : (x >>= f).run.Only K := by
  rw [ExceptT.run_bind]
  refine Within.bind (hx.mono ?_)
  rintro (e | a) _
  · trivial
  · exact hf a

/-- A call, be it refused. -/
theorem Only.call {c : Call A} (hc : K (.call c)) : (call c : Link A c.Answer).run.Only K :=
  ⟨hc, fun a => by cases a <;> trivial⟩

end Dialogue

/-- How every path ends is how every run ends. -/
theorem Environment.wp_of_within {W : Type} {env : Environment A W} {K : Op A → Prop}
    {Q : α → Prop} {d : Dialogue A α} (hd : d.Within K Q) (w : W) :
    env.wp (fun _ => True) d (fun a _ => Q a) w := by
  induction d generalizing w with
  | done a => exact hd
  | ask op next ih => exact fun w' _ => ⟨trivial, fun a w'' _ => ih a (hd.2 a) w''⟩

/-- How every path ends is what a run comes to. -/
theorem Dialogue.Within.of_reaches {W : Type} {env : Environment A W} {K : Op A → Prop}
    {Q : α → Prop} {d : Dialogue A α} (hd : d.Within K Q) {a : α} {w w' : W}
    (hr : env.Reaches d w (.done a) w') : Q a :=
  Environment.wp_done_at (fun _ => ⟨fun _ h => h, fun _ => trivial⟩)
    (Environment.wp_of_within hd w) hr

/-! ## Computations with a local state -/

/-- Operations in `K` alone, and changes of the local state that `view` does not see. -/
def Confined (K : Op A → Prop) (view : σ → τ) (x : ExceptT ε (StateT σ (Dialogue A)) α) : Prop :=
  ∀ s, (x.run.run s).Within K fun r => view r.2 = view s

namespace Confined

variable {K : Op A → Prop} {view : σ → τ}

/-- Less can be said of the operations. -/
theorem weaken {L : Op A → Prop} (hKL : ∀ op, K op → L op)
    {x : ExceptT ε (StateT σ (Dialogue A)) α} (h : Confined K view x) : Confined L view x :=
  fun s => (h s).weaken hKL

/-- What a view does not see change, a part of it does not see change either. -/
theorem through {υ : Type} (g : τ → υ) {x : ExceptT ε (StateT σ (Dialogue A)) α}
    (h : Confined K view x) : Confined K (fun s => g (view s)) x :=
  fun s => (h s).mono fun _ hs => congrArg g hs

/-- What is done at once asks nothing. -/
theorem pure (a : α) : Confined K view (Pure.pure a : ExceptT ε (StateT σ (Dialogue A)) α) :=
  fun _ => rfl

/-- Nor does what fails at once. -/
theorem throw (e : ε) : Confined K view (throw e : ExceptT ε (StateT σ (Dialogue A)) α) :=
  fun _ => rfl

/-- Nothing comes after a failure. -/
theorem throw_bind (e : ε) (f : α → ExceptT ε (StateT σ (Dialogue A)) β) :
    Confined K view (MonadExcept.throw e >>= f) :=
  fun _ => rfl

/-- A result that is there asks nothing. -/
theorem ofExcept (r : Except ε α) :
    Confined K view (MonadExcept.ofExcept r : ExceptT ε (StateT σ (Dialogue A)) α) := by
  cases r with
  | ok a => exact pure a
  | error e => exact throw e

/-- The view is kept by both parts, and so by the sequence. -/
theorem bind {x : ExceptT ε (StateT σ (Dialogue A)) α}
    {f : α → ExceptT ε (StateT σ (Dialogue A)) β} (hx : Confined K view x)
    (hf : ∀ a, Confined K view (f a)) : Confined K view (x >>= f) := by
  intro s
  simp only [ExceptT.run_bind, StateT.run_bind]
  refine Dialogue.Within.bind ((hx s).mono ?_)
  rintro ⟨e | a, s'⟩ hs
  · exact hs
  · exact (hf a s').mono fun r hr => hr.trans hs

/-- Looking at the state asks nothing. -/
theorem get : Confined K view (get : ExceptT ε (StateT σ (Dialogue A)) σ) :=
  fun _ => rfl

/-- A change that the view does not see. -/
theorem modify {f : σ → σ} (hf : ∀ s, view (f s) = view s) :
    Confined K view (modify f : ExceptT ε (StateT σ (Dialogue A)) PUnit) :=
  hf

/-- Without a state of its own, a computation changes none. -/
theorem lift {x : ExceptT ε (Dialogue A) α} (hx : x.run.Only K) :
    Confined K view (liftM x : ExceptT ε (StateT σ (Dialogue A)) α) :=
  fun _ => Dialogue.Within.bind (hx.mono fun _ _ => rfl)

/-- Nor does a dialogue. -/
theorem liftDialogue {d : Dialogue A α} (hd : d.Only K) :
    Confined K view (liftM d : ExceptT ε (StateT σ (Dialogue A)) α) :=
  fun _ => Dialogue.Within.bind (Dialogue.Within.bind (hd.mono fun _ _ => rfl))

/-- A failure that is at hand is no other operation. -/
theorem outcome {x : ExceptT ε (StateT σ (Dialogue A)) α} (hx : Confined K view x) :
    Confined K view (outcome x) :=
  fun s => Dialogue.Within.bind (hx s)

/-- A note keeps the state. -/
theorem note {n : Note} (hn : K (.note n)) :
    Confined K view (note n : ExceptT ε (StateT σ (Dialogue A)) Unit) :=
  fun _ => ⟨hn, fun _ => rfl⟩

/-- So does a question about the target, ... -/
theorem feature {f : Feature} (hf : K (.feature f)) :
    Confined K view (feature f : ExceptT ε (StateT σ (Dialogue A)) f.Answer) :=
  fun _ => ⟨hf, fun _ => rfl⟩

/-- ... a request to the host, ... -/
theorem host {r : HostRequest} (hr : K (.host r)) :
    Confined K view (host r : ExceptT ε (StateT σ (Dialogue A)) r.Answer) :=
  fun _ => ⟨hr, fun _ => rfl⟩

/-- ... and a call. -/
theorem call {c : Call A} (hc : K (.call c)) :
    Confined K view (call c : ExceptT Error (StateT σ (Dialogue A)) c.Answer) :=
  fun _ => ⟨hc, fun a => by cases a <;> rfl⟩

end Confined

/-- Whatever is asked and answered: what it returns, if it does, is in `P`. -/
def Gives (P : α → Prop) (x : ExceptT ε (StateT σ (Dialogue A)) α) : Prop :=
  ∀ s, (x.run.run s).Within (fun _ => True) fun r => ∀ a, r.1 = .ok a → P a

namespace Gives

variable {P : β → Prop}

/-- What fails gives no value to speak of. -/
theorem throw (e : ε) : Gives P (throw e : ExceptT ε (StateT σ (Dialogue A)) β) :=
  fun _ => nofun

/-- Nor does what would come after it. -/
theorem throw_bind (e : ε) (f : α → ExceptT ε (StateT σ (Dialogue A)) β) :
    Gives P (MonadExcept.throw e >>= f) :=
  fun _ => nofun

/-- What comes first does not matter. -/
theorem last {x : ExceptT ε (StateT σ (Dialogue A)) α}
    {f : α → ExceptT ε (StateT σ (Dialogue A)) β} (hf : ∀ a, Gives P (f a)) :
    Gives P (x >>= f) := by
  refine fun s => .seq ((Dialogue.only_any _).mono ?_)
  rintro ⟨e | a, s'⟩ -
  · exact nofun
  · exact hf a s'

end Gives

/-! ## Runs on the recorder -/

/-- `P` says no more than `I`, and stays true through operations in `K`, however they are
    answered. -/
structure Kept (K : Op A → Prop) (I P : Transcript A → Prop) : Prop where
  event : ∀ {log : Transcript A} {op : Op A} (a : op.Answer), K op → P log → P (log ++ [⟨op, a⟩])
  holds : ∀ {log : Transcript A}, P log → I log

namespace Transcript

open Environment

variable {K : Op A → Prop} {I P : Transcript A → Prop} {log : Transcript A}

/-- On the recorder, what holds does so until the next event. -/
theorem lasts (hQ : ∀ log, P log → I log) : (recorder A).Lasts I P :=
  ⟨fun h => h.elim, hQ _⟩

/-- Whatever is answered is recorded. -/
theorem wp_op {op : Op A} {next : op.Answer → Dialogue A α} {Q : α → Transcript A → Prop}
    (hI : I log) (hn : ∀ a, (recorder A).wp I (next a) Q (log ++ [⟨op, a⟩])) :
    (recorder A).wp I (.ask op next) Q log := by
  have hP : (recorder A).Lasts I fun l => l = log := lasts fun l hl => hl ▸ hI
  refine wp_ask hP rfl ?_
  rintro _ a log' rfl rfl
  exact hn a

/-- An operation in `K` leaves true what is kept by all of them. -/
theorem wp_kept {op : Op A} {next : op.Answer → Dialogue A α} {Q : α → Transcript A → Prop}
    (hP : Kept K I P) (hop : K op) (h : P log)
    (hn : ∀ a, P (log ++ [⟨op, a⟩]) → (recorder A).wp I (next a) Q (log ++ [⟨op, a⟩])) :
    (recorder A).wp I (.ask op next) Q log :=
  wp_op (hP.holds h) fun a => hn a (hP.event a hop h)

/-- A stretch of operations in `K`, and what comes after it. -/
theorem wp_within {d : Dialogue A α} {Q : α → Prop} (hP : Kept K I P) (hd : d.Within K Q)
    (h : P log) : (recorder A).wp I d (fun a log => P log ∧ Q a) log := by
  induction d generalizing log with
  | done a => exact ⟨h, hd⟩
  | ask op next ih => exact wp_op (hP.holds h) fun a => ih a (hd.2 a) (hP.event a hd.1 h)

/-- Operations of a kind keep what such operations keep. -/
theorem wp_confined {x : ExceptT ε (StateT σ (Dialogue A)) α} {view : σ → τ} (hP : Kept K I P)
    (hx : Confined K view x) (h : P log) (s : σ) :
    (recorder A).wp I (x.run.run s) (fun r log => P log ∧ view r.2 = view s) log :=
  wp_within hP (hx s) h

/-- Every moment of a run may be the last before the link goes down. -/
theorem reaches_cutOff (order : Endian) (d : Dialogue A α) (log : Transcript A) :
    ∃ rest, (recorder A).Reaches d log (.done (d.cutOff order)) (log ++ rest) := by
  induction d generalizing log with
  | done a => exact ⟨[], by rw [List.append_nil]; exact .refl _ _⟩
  | ask op next ih =>
      have hstep : ∀ a : op.Answer, (Dialogue.ask op next).cutOff order = (next a).cutOff order →
          ∃ rest, (recorder A).Reaches (.ask op next) log
            (.done ((Dialogue.ask op next).cutOff order)) (log ++ rest) := by
        intro a ha
        obtain ⟨rest, hr⟩ := ih a (log ++ [⟨op, a⟩])
        refine ⟨⟨op, a⟩ :: rest, .answer a rfl ?_⟩
        rw [ha, List.append_cons log _ rest]
        exact hr
      cases op with
      | call c => exact hstep (.error .nonFatal) rfl
      | feature f =>
          cases f with
          | endian => exact hstep order rfl
          | breakpoints => exact hstep false rfl
          | mmu => exact hstep false rfl
      | host r =>
          cases r with
          | now => exact hstep (0 : UInt64) rfl
          | sleep ms => exact hstep () rfl
          | keepAlive => exact hstep () rfl
          | shutdownPending => exact hstep true rfl
      | note n => exact hstep () rfl

end Transcript

end DebugLink
