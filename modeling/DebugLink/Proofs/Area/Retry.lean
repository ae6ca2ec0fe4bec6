import DebugLink.Proofs.Area.Foresight

/-!
# Asking again, once the window is chosen

A request that finds the window closed asks the target which one to open, and then goes on as if
that one HAD BEEN OPEN ALL ALONG.

* `Demand` is any of the requests that hand out an area.
* `Resumes` is what the heart says of one of them: answered like that, it becomes the same request
  of the open window; or it never comes to ask, and fails in the same way with either.
* `Demand.resumes` holds for all of them, `allocHalving` by induction on the size: the sizes that
  are too large to be rounded up ask nothing, the first that is not opens the window.
-/

namespace DebugLink.Areas

open Environment Dialogue

variable {A : Arch}

/-- A request for an area. -/
inductive Demand where
  | alloc (size : Nat)
  | allocTry (size : Nat)
  | allocShrinking (preferred least : Nat)

/-- Makes the request. -/
def Demand.perform : Demand → AreaM A (Area A.width)
  | .alloc size => Areas.alloc size
  | .allocTry size => Areas.allocTry size
  | .allocShrinking preferred least => Areas.allocShrinking preferred least

/-- The same, among all requests. -/
def Demand.request {w : Nat} : Demand → AreaRequest w
  | .alloc size => .alloc size
  | .allocTry size => .allocTry size
  | .allocShrinking preferred least => .allocShrinking preferred least

variable {x : AreaM A (Area A.width)} {s t : Areas A.width} {live : List (Area A.width)}
  {on : Bool} {base : BitVec A.width} {n size : Nat} {asked seen : Transcript A}

/-- Both fail in the same way, and stay as they are. -/
def FailsAlike (x : AreaM A (Area A.width)) (s t : Areas A.width) : Prop :=
  Agree (fun r r' => ∃ e, r = (.error e, s) ∧ r' = (.error e, t)) (x.run.run s) (x.run.run t)

/-- Asked of `s` and answered as in `seen`, it goes on as if it had been asked of `t`; or it never
    gets so far. -/
def Resumes (x : AreaM A (Area A.width)) (s t : Areas A.width) (seen : Transcript A) : Prop :=
  (recorder A).Reaches (x.run.run s) [] (x.run.run t) seen ∨ FailsAlike x s t

/-- What is asked of the target, and told, when the window is opened. -/
theorem openWindow_path (hasked : (mmuOn (A := A)).run.Path asked (.ok on))
    (hopens : s.config.Opens on base) : ((openWindow n).run.run s).Path
      (asked ++ [⟨.note (.window on base.toNat), ()⟩]) (.ok (), s.openAt base) := by
  obtain ⟨hw, hfits⟩ := hopens
  rw [openWindow]
  refine path_andThen (path_lift.mpr ⟨_, rfl, hasked⟩) (path_get.mpr ?_)
  dsimp only
  rw [hw]
  refine path_ask.mpr ⟨(), [], rfl, ?_⟩
  simp only [if_pos hfits]
  exact .done _

theorem opened_openAt (s : Areas A.width) (base : BitVec A.width) :
    (s.openAt base).opened = true := by
  simp [Areas.opened, openAt]

/-- What is available does not depend on whether a window that can be opened is open. -/
theorem Closed.available_openAt (h : Closed s live) (hopens : s.config.Opens on base) :
    (s.openAt base).available = s.available := by
  have hlayout := layout_openAt (h.order ▸ h.slotted) h.order base
  have hsome : s.config.window? on ≠ none := by
    rw [hopens.1]
    exact nofun
  have hclosed := (available_foretold h.opened_eq on fun hnone => absurd hnone hsome).1
  rw [foretold, hopens.1] at hclosed
  exact (available_single hlayout rfl).trans hclosed.symm

/-! ## Parts of a request -/

section Parts

variable {α β : Type} {W : Type} {env : Environment A W} {w w' : W} {s' : Areas A.width}

/-- What a part that asks nothing leads to. -/
theorem outcome_done {x : AreaM A α} {f : Except Error α → AreaM A β} {r : Except Error α}
    (h : x.run.run s = .done (r, s')) :
    ((outcome x >>= f).run.run s) = ((f r).run.run s') := by
  have hrun : (outcome x).run.run s = .done (.ok r, s') := by
    show x.run.run s >>= _ = _
    rw [h]
    rfl
  simp only [ExceptT.run_bind, StateT.run_bind]
  rw [hrun]
  rfl

/-- A run of the first part, be it a failure, is a run of the whole. -/
theorem reaches_outcome {x : AreaM A α}
    (h : env.Reaches (x.run.run s) w (x.run.run t) w') (f : Except Error α → AreaM A β) :
    env.Reaches ((outcome x >>= f).run.run s) w ((outcome x >>= f).run.run t) w' := by
  simp only [ExceptT.run_bind, StateT.run_bind]
  exact (h.bind _).bind _

end Parts

/-- A size that cannot be rounded up is refused without a question. -/
theorem allocTry_overflow (hn : roundUp? size = none) (s : Areas A.width) :
    (allocTry size).run.run s =
      .done (.error (.resourceNotAvailable size s.available), s) := by
  rw [allocTry_eq, hn]
  rfl

/-- Any other opens the window. -/
theorem allocTry_reaches (hclosed : s.opened = false)
    (hasked : (mmuOn (A := A)).run.Path asked (.ok on)) (hopens : s.config.Opens on base)
    (hn : roundUp? size = some n) :
    (recorder A).Reaches ((allocTry size).run.run s) []
      ((allocTry size).run.run (s.openAt base))
      (asked ++ [⟨.note (.window on base.toNat), ()⟩]) := by
  have hleft : (allocTry (A := A) size).run.run s =
      ((openWindow n >>= fun _ => serve n).run.run s) := by
    rw [allocTry_eq, hn]
    show ((if (!s.opened) = true then _ else _ : AreaM A _).run.run s) = _
    rw [hclosed]
    rfl
  have hright : (allocTry (A := A) size).run.run (s.openAt base) =
      ((serve n).run.run (s.openAt base)) := by
    rw [allocTry_eq, hn]
    show ((if (!(s.openAt base).opened) = true then _ else _ : AreaM A _).run.run _) = _
    rw [opened_openAt]
    rfl
  rw [hleft, hright]
  simp only [ExceptT.run_bind, StateT.run_bind]
  exact ((openWindow_path hasked hopens).reaches []).bind _

/-! ## The requests -/

theorem allocHalving_resumes (h : Closed s live)
    (hasked : (mmuOn (A := A)).run.Path asked (.ok on)) (hopens : s.config.Opens on base)
    {least : Nat} (hl : 0 < least) (size : Nat) :
    Resumes (allocHalving least size hl) s (s.openAt base)
      (asked ++ [⟨.note (.window on base.toNat), ()⟩]) := by
  induction size using Nat.strongRecOn with
  | ind size ih =>
      rw [allocHalving]
      cases hn : roundUp? size with
      | none =>
          have havailable := h.available_openAt hopens
          rw [Resumes, FailsAlike, outcome_done (allocTry_overflow hn _),
            outcome_done (allocTry_overflow hn _), havailable]
          by_cases hsize : least ≤ size / 2
          · simp only [dif_pos hsize]
            exact ih (size / 2) (by omega)
          · simp only [dif_neg hsize]
            exact Or.inr (.note rfl (.done ⟨_, rfl, rfl⟩))
      | some n => exact Or.inl (reaches_outcome (allocTry_reaches h.opened_eq hasked hopens hn) _)

/-- EVERY REQUEST GOES ON as if the window that it was told to open had been open all along. -/
theorem Demand.resumes (h : Closed s live) (hasked : (mmuOn (A := A)).run.Path asked (.ok on))
    (hopens : s.config.Opens on base) (demand : Demand) :
    Resumes demand.perform s (s.openAt base)
      (asked ++ [⟨.note (.window on base.toNat), ()⟩]) := by
  have havailable := h.available_openAt hopens
  cases demand with
  | alloc size =>
      show Resumes (Areas.alloc size) s _ _
      rw [Resumes, FailsAlike, Areas.alloc]
      cases hn : roundUp? size with
      | none =>
          rw [outcome_done (allocTry_overflow hn _), outcome_done (allocTry_overflow hn _),
            havailable]
          exact Or.inr (.note rfl (.done ⟨_, rfl, rfl⟩))
      | some n => exact Or.inl (reaches_outcome (allocTry_reaches h.opened_eq hasked hopens hn) _)
  | allocTry size =>
      show Resumes (Areas.allocTry size) s _ _
      rw [Resumes, FailsAlike]
      cases hn : roundUp? size with
      | none =>
          rw [allocTry_overflow hn, allocTry_overflow hn, havailable]
          exact Or.inr (.done ⟨_, rfl, rfl⟩)
      | some n => exact Or.inl (allocTry_reaches h.opened_eq hasked hopens hn)
  | allocShrinking preferred least => exact allocHalving_resumes h hasked hopens _ _

end DebugLink.Areas
