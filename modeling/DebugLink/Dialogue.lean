import DebugLink.Call

/-!
# Dialogues

A computation of this library is a *dialogue*: either it is done, or it performs an operation
and goes on in a way that depends on the answer. A dialogue fixes nothing about who answers,
so a statement about all answers is a statement about all targets and hosts, and the
operations on a path are exactly what an onlooker sees.

* `bind_assoc`, `bind_pure` and their like make `Dialogue A` a lawful monad.
* `Link A` adds failure, and `ExceptT Error (StateT σ (Dialogue A))` failure and a local state
  that survives it. `Speaks A m` says that `m` is built on dialogues in such a way.
-/

namespace DebugLink

/-- A computation that reaches beyond the library only through `Op`. -/
inductive Dialogue (A : Arch) (α : Type) where
  | done (a : α)
  | ask (op : Op A) (next : op.Answer → Dialogue A α)

namespace Dialogue

variable {A : Arch} {α β γ : Type}

/-- Goes on with `f` where `d` is done. -/
def bind : Dialogue A α → (α → Dialogue A β) → Dialogue A β
  | .done a, f => f a
  | .ask op next, f => .ask op fun answer => (next answer).bind f

instance : Monad (Dialogue A) where
  pure := .done
  bind := .bind

@[simp] theorem pure_eq (a : α) : (pure a : Dialogue A α) = .done a := rfl

@[simp] theorem done_bind (a : α) (f : α → Dialogue A β) : (Dialogue.done a) >>= f = f a := rfl

@[simp] theorem ask_bind (op : Op A) (next : op.Answer → Dialogue A α) (f : α → Dialogue A β) :
    (Dialogue.ask op next) >>= f = .ask op fun answer => next answer >>= f := rfl

/-- To end with what came out is to do nothing more. -/
theorem bind_done (d : Dialogue A α) : d >>= Dialogue.done = d := by
  induction d with
  | done a => rfl
  | ask op next ih => exact congrArg (Dialogue.ask op) (funext ih)

/-- It does not matter which of the joins is made first. -/
theorem bind_assoc (d : Dialogue A α) (f : α → Dialogue A β) (g : β → Dialogue A γ) :
    d >>= f >>= g = d >>= fun a => f a >>= g := by
  induction d with
  | done a => rfl
  | ask op next ih => exact congrArg (Dialogue.ask op) (funext ih)

instance : LawfulMonad (Dialogue A) :=
  LawfulMonad.mk' _ (fun d => bind_done d) (fun _ _ => rfl) bind_assoc

/-- Performs one operation. -/
def perform (op : Op A) : Dialogue A op.Answer :=
  .ask op .done

end Dialogue

/-- A dialogue that may fail. -/
abbrev Link (A : Arch) := ExceptT Error (Dialogue A)

/-- A step that may fail is also a step of a computation with a local state, which it leaves
    alone. -/
instance (priority := low) monadLiftState {ε σ : Type} {m : Type → Type} [Monad m] :
    MonadLift (ExceptT ε m) (ExceptT ε (StateT σ m)) where
  monadLift x := ExceptT.mk (StateT.lift x.run)

/-- Runs a computation to its end, be it a failure, and goes on with how it ended. -/
def outcome {ε α : Type} {m : Type → Type} [Monad m] (x : ExceptT ε m α) :
    ExceptT ε m (Except ε α) :=
  ExceptT.mk do return .ok (← x.run)

/-- Computations that can hold a dialogue. -/
class Speaks (A : outParam Arch) (m : Type → Type) where
  speak : {α : Type} → Dialogue A α → m α

instance {A : Arch} : Speaks A (Dialogue A) where
  speak := id

instance {A : Arch} {ε : Type} {m : Type → Type} [Monad m] [Speaks A m] :
    Speaks A (ExceptT ε m) where
  speak d := ExceptT.lift (Speaks.speak d)

instance {A : Arch} {σ : Type} {m : Type → Type} [Monad m] [Speaks A m] :
    Speaks A (StateT σ m) where
  speak d := StateT.lift (Speaks.speak d)

variable {A : Arch} {m : Type → Type} [Speaks A m]

/-- Reports a note. -/
def note (n : Note) : m Unit :=
  Speaks.speak (A := A) (.perform (.note n))

/-- Performs a call and hands over its answer, be it a refusal. -/
def tryCall (c : Call A) : m (Except TargetError c.Answer) :=
  Speaks.speak (.perform (.call c))

/-- Asks what the target can do. -/
def feature (f : Feature) : m f.Answer :=
  Speaks.speak (A := A) (.perform (.feature f))

/-- Makes a request to the host. -/
def host (r : HostRequest) : m r.Answer :=
  Speaks.speak (A := A) (.perform (.host r))

/-- Performs a call; a refusal ends the computation. -/
def call [Monad m] [MonadExceptOf Error m] (c : Call A) : m c.Answer := do
  match ← tryCall c with
  | .ok answer => return answer
  | .error e => throw (.ofTarget e)

end DebugLink
