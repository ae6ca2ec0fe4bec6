import DebugLink.Proofs.Bench
import DebugLink.Proofs.Runner.Idle
import Mathlib.Data.Multiset.Basic
import Mathlib.Logic.Function.Basic

/-!
# A start that fails leaves no trace

A start saves registers, writes parameters, sets a breakpoint and lets the core go.  Any of this
may fail, with part of it done; two clean-up steps then have to undo just that part.

* A `Rig` is a halted target on which ONE thing may go wrong, at any point: a call is refused, the
  core is not halted after all, breakpoints are not supported or not set, a parameter does not
  fit.  What goes wrong has no effect (`Event.refusal?`), and everything else works.
* `Undoable` is the invariant on the way: what was changed so far is exactly what the clean-up puts
  back.  Every step keeps it, be it successful or not (`Attempted`).
* `wp_disarm_rig` and `wp_restoreContext_rig` take the runner's own breakpoint and what it saved,
  and lead back to the beginning.

`Bay.Reachable.start_undone` puts these together.  That there is nothing to undo BEFORE a start is
`Bay.Reachable.tidy`.
-/

namespace DebugLink

open Environment Dialogue

variable {A : Arch} {α : Type}

/-- The failure that an answer means to a start. -/
def Event.refusal? : Event A → Option Error
  | ⟨.call _, .error e⟩ => some (.ofTarget e)
  | ⟨.call .poll, .ok state⟩ => if state = .halted then none else some .notHalted
  | ⟨.call (.addBreakpoint ..), .ok false⟩ => some (.unsupported "breakpoints")
  | ⟨.feature .breakpoints, false⟩ => some (.unsupported "breakpoints")
  | ⟨.note (.rangeWrapped address len), _⟩ => some (.addressWrap address len)
  | _ => none

/-- A halted target on which one thing may go wrong. -/
structure Rig (A : Arch) where
  regs : A.Reg → A.Addr
  memory : Contents
  /-- Those that are set, whoever set them.  What is added is a new one, so a target that keeps
      each of them once has to refuse one that is there already. -/
  breakpoints : Multiset (A.Addr × A.Kind)
  /-- What went wrong, once something has. -/
  refused : Option Error := none

namespace Rig

/-- What an operation does to the target if nothing goes wrong with it. -/
def effect (w : Rig A) : (op : Op A) → op.Answer → Rig A → Prop
  | .call (.read a n), .ok bytes, w' => bytes.val = w.memory.slice a.toNat n ∧ w' = w
  | .call (.write a bs), .ok _, w' => w' = { w with memory := w.memory.store a.toNat bs }
  | .call (.readReg reg), .ok v, w' => v = w.regs reg ∧ w' = w
  | .call (.writeReg reg v), .ok _, w' => w' = { w with regs := Function.update w.regs reg v }
  | .call (.addBreakpoint a kind), .ok _, w' =>
      w' = { w with breakpoints := (a, kind) ::ₘ w.breakpoints }
  | .call (.removeBreakpoint a kind), .ok true, w' =>
      w.breakpoints = (a, kind) ::ₘ w'.breakpoints ∧ w' = { w with breakpoints := w'.breakpoints }
  | .call (.removeBreakpoint a kind), .ok false, w' => (a, kind) ∉ w.breakpoints ∧ w' = w
  -- the core is let go, and may do anything
  | .call (.resume ..), .ok _, w' => w'.refused = w.refused
  | _, _, w' => w' = w

/-- What goes wrong has no effect, and only one thing does. -/
def answers (w : Rig A) (op : Op A) (a : op.Answer) (w' : Rig A) : Prop :=
  match Event.refusal? ⟨op, a⟩ with
  | some e => w.refused = none ∧ w' = { w with refused := some e }
  | none => w.effect op a w'

end Rig

/-- A rig as an environment. -/
def rig (A : Arch) : Environment A (Rig A) where
  moves _ _ := False
  answers := Rig.answers

namespace Rig

variable {w : Rig A} {Q : α → Rig A → Prop}

/-- Nothing happens on its own. -/
theorem wp_op {op : Op A} {next : op.Answer → Dialogue A α}
    (hn : ∀ a w', w.answers op a w' → (rig A).wp (fun _ => True) (next a) Q w') :
    (rig A).wp (fun _ => True) (.ask op next) Q w := by
  have hP : (rig A).Lasts (fun _ => True) (· = w) := ⟨fun hm => hm.elim, fun _ => trivial⟩
  refine wp_ask hP rfl ?_
  rintro _ a w' rfl ha
  exact hn a w' ha

/-- Once something went wrong, nothing else does. -/
theorem effect_of_answers {e : Error} (hw : w.refused = some e) {op : Op A} {a : op.Answer}
    {w' : Rig A} (ha : w.answers op a w') :
    Event.refusal? ⟨op, a⟩ = none ∧ w.effect op a w' := by
  rw [answers] at ha
  split at ha
  · rw [hw] at ha
    exact nomatch ha.1
  · next hnone => exact ⟨hnone, ha⟩

end Rig

/-- No input parameter of the image lies at `x`. -/
def Image.Spares {w : Nat} {ι : Type} (image : Image w ι) (x : Nat) : Prop :=
  ∀ p ∈ image.mem, p.direction.isInput = true →
    ¬(p.address.toNat ≤ x ∧ x < p.address.toNat + p.data.length)

/-- Breakpoints, and the one that a runner has set. -/
def Runner.armed (r : Runner A) (breakpoints : Multiset (A.Addr × A.Kind)) :
    Multiset (A.Addr × A.Kind) :=
  match r.breakpoint with
  | none => breakpoints
  | some address => (address, r.exitKind) ::ₘ breakpoints

/-- What has been done to a target so far is undone by removing the runner's breakpoint and by
    putting back what it saved. -/
structure Undoable (before : Rig A) (h₀ h : Held A) (w : Rig A) : Prop where
  held : { h with runner := { h.runner with saved := [], breakpoint := none } } = h₀
  saved : ∀ entry ∈ h.runner.saved, entry.2 = before.regs entry.1
  regs : ∀ reg, reg ∉ h.runner.saved.map (·.1) → w.regs reg = before.regs reg
  breakpoints : w.breakpoints = h.runner.armed before.breakpoints
  memory : ∀ x, h₀.runner.image.Spares x → w.memory x = before.memory x

namespace Undoable

variable {before w : Rig A} {h₀ h : Held A}

/-- Nothing was done, so nothing is to be undone. -/
theorem refl (hb : h.runner.Bare) (w : Rig A) : Undoable w h h w where
  held := by
    obtain ⟨⟨image, regs, saved, breakpoint, state, pollInterval⟩, busy⟩ := h
    obtain ⟨rfl, rfl⟩ : saved = [] ∧ breakpoint = none := ⟨hb.saved, hb.breakpoint⟩
    rfl
  saved := by
    rw [hb.saved]
    exact nofun
  regs := fun _ _ => rfl
  breakpoints := by rw [Runner.armed, hb.breakpoint]
  memory := fun _ _ => rfl

/-- A refusal changes nothing. -/
theorem refuse (hu : Undoable before h₀ h w) (e : Error) :
    Undoable before h₀ h { w with refused := some e } :=
  ⟨hu.held, hu.saved, hu.regs, hu.breakpoints, hu.memory⟩

/-- A register is saved before it is touched. -/
theorem save (hu : Undoable before h₀ h w) {reg : A.Reg}
    (hreg : reg ∉ h.runner.saved.map (·.1)) :
    Undoable before h₀ { h with runner.saved := h.runner.saved ++ [(reg, w.regs reg)] } w where
  held := hu.held
  saved := by
    intro entry he
    rcases List.mem_append.mp he with he | he
    · exact hu.saved entry he
    · rw [List.mem_singleton.mp he]
      exact hu.regs reg hreg
  regs := by
    intro reg' hreg'
    refine hu.regs reg' fun hmem => hreg' ?_
    rw [List.map_append]
    exact List.mem_append_left _ hmem
  breakpoints := hu.breakpoints
  memory := hu.memory

/-- A saved register may be written. -/
theorem writeReg (hu : Undoable before h₀ h w) {reg : A.Reg}
    (hreg : reg ∈ h.runner.saved.map (·.1)) (v : A.Addr) :
    Undoable before h₀ h { w with regs := Function.update w.regs reg v } where
  held := hu.held
  saved := hu.saved
  regs := by
    intro reg' hreg'
    have hne : reg' ≠ reg := fun heq => hreg' (heq ▸ hreg)
    exact (Function.update_of_ne hne v w.regs).trans (hu.regs reg' hreg')
  breakpoints := hu.breakpoints
  memory := hu.memory

/-- An input parameter may be written. -/
theorem writeMem (hu : Undoable before h₀ h w) {p : MemParam A.width}
    (hp : p ∈ h₀.runner.image.mem) (hin : p.direction.isInput = true) :
    Undoable before h₀ h { w with memory := w.memory.store p.address.toNat p.data } where
  held := hu.held
  saved := hu.saved
  regs := hu.regs
  breakpoints := hu.breakpoints
  memory := by
    intro x hx
    have hout := hx p hp hin
    exact (Contents.store_outside (by omega)).trans (hu.memory x hx)

/-- A breakpoint that the target added is remembered. -/
theorem arm (hu : Undoable before h₀ h w) (hnone : h.runner.breakpoint = none) (a : A.Addr) :
    Undoable before h₀ { h with runner.breakpoint := some a }
      { w with breakpoints := (a, h.runner.exitKind) ::ₘ w.breakpoints } where
  held := hu.held
  saved := hu.saved
  regs := hu.regs
  breakpoints := by
    have hb := hu.breakpoints
    rw [Runner.armed, hnone] at hb
    exact congrArg _ hb
  memory := hu.memory

end Undoable

/-- How a step ends: what was done can be undone, and the step fails with what went wrong. -/
structure Attempted (before : Rig A) (h₀ h : Held A) (r : Except Error α) (w : Rig A) : Prop where
  undoable : Undoable before h₀ h w
  failure : w.refused = failure? r

/-- A refusal changes nothing, and is remembered. -/
theorem Undoable.refused {before w : Rig A} {h₀ h : Held A} (hu : Undoable before h₀ h w)
    (e : Error) :
    Attempted before h₀ h (.error e : Except Error α) { w with refused := some e } :=
  ⟨hu.refuse e, rfl⟩

namespace Runner

open Rig

variable {before w : Rig A} {h₀ h : Held A}

/-- A register was saved if there is an entry for it. -/
theorem any_saved {saved : List (A.Reg × A.Addr)} {reg : A.Reg} :
    (saved.any fun entry => entry.1 = reg) = true ↔ reg ∈ saved.map (·.1) := by
  rw [List.any_eq_true, List.mem_map]
  simp only [decide_eq_true_eq]

/-- Registers are saved, until one cannot be read. -/
theorem wp_saveRegs_rig (hw : w.refused = none) (regs : List A.Reg) :
    ∀ {h : Held A}, Undoable before h₀ h w →
      (rig A).wp (fun _ => True) ((saveRegs regs).run.run h) (fun r w' =>
        Attempted before h₀ r.2 r.1 w' ∧
          r.2.runner.breakpoint = h.runner.breakpoint ∧
          (r.1 = .ok () → ∀ reg, reg ∈ h.runner.saved.map (·.1) ∨ reg ∈ regs →
            reg ∈ r.2.runner.saved.map (·.1))) w := by
  -- on the registers to come: what is saved so far can be undone at any time
  induction regs with
  | nil =>
      intro h hu
      refine ⟨⟨hu, hw⟩, rfl, fun _ reg hreg => ?_⟩
      exact hreg.resolve_right List.not_mem_nil
  | cons reg rest ih =>
      intro h hu
      refine wp_get ?_
      split
      · next hnew =>
        rw [Bool.not_eq_true'] at hnew
        have hnew : reg ∉ h.runner.saved.map (·.1) := by
          rw [← any_saved, hnew]
          exact Bool.false_ne_true
        refine wp_op ?_
        rintro (e | v) w' ha
        · obtain ⟨-, rfl⟩ := ha
          exact ⟨hu.refused _, rfl, nofun⟩
        · obtain ⟨rfl, rfl⟩ := ha
          refine wp_mono (ih (hu.save hnew)) ?_
          rintro r w' ⟨hr, hb, hs⟩
          refine ⟨hr, hb, fun hok reg' hreg' => hs hok reg' ?_⟩
          rcases hreg' with hreg' | hreg'
          · exact Or.inl (by simpa using Or.inl (by simpa using hreg'))
          · rcases List.mem_cons.mp hreg' with rfl | hreg'
            · exact Or.inl (by simp)
            · exact Or.inr hreg'
      · next hold =>
        refine wp_mono (ih hu) ?_
        rintro r w' ⟨hr, hb, hs⟩
        refine ⟨hr, hb, fun hok reg' hreg' => hs hok reg' ?_⟩
        rcases hreg' with hreg' | hreg'
        · exact Or.inl hreg'
        · rcases List.mem_cons.mp hreg' with rfl | hreg'
          · exact Or.inl (by simpa using hold)
          · exact Or.inr hreg'

/-- Input parameters are written, until one cannot be. -/
theorem wp_writeBuffer_rig (hu : Undoable before h₀ h w) (hw : w.refused = none)
    {p : MemParam A.width} (hp : p ∈ h₀.runner.image.mem) (hin : p.direction.isInput = true) :
    (rig A).wp (fun _ => True) (writeBuffer p.address p.data).run
      (Attempted before h₀ h) w := by
  rw [writeBuffer]
  refine wp_andThen (wp_op ?_)
  rintro _ w rfl
  show (rig A).wp _ (ExceptT.run (if p.data = [] then (pure () : Link A Unit) else _)) _ _
  split
  · exact ⟨hu, hw⟩
  · refine wp_andThen ?_
    rw [checkFits]
    split
    · refine wp_op ?_
      rintro (e | _) w' ha
      · obtain ⟨-, rfl⟩ := ha
        exact hu.refused _
      · obtain rfl := ha
        exact ⟨hu.writeMem hp hin, hw⟩
    · refine wp_op ?_
      rintro _ w' ⟨-, rfl⟩
      exact hu.refused _

/-- Blocks are written, which is not undone, but only where the image says, ... -/
theorem wp_writeMem_rig (params : List (MemParam A.width)) :
    ∀ {w : Rig A}, Undoable before h₀ h w → w.refused = none →
      (∀ p ∈ params, p ∈ h₀.runner.image.mem) →
      (rig A).wp (fun _ => True) (writeMem params).run
        (Attempted before h₀ h) w := by
  induction params with
  | nil => exact fun hu hw _ => ⟨hu, hw⟩
  | cons p rest ih =>
      intro w hu hw hsub
      obtain ⟨hp, hrest⟩ := List.forall_mem_cons.mp hsub
      rw [writeMem]
      split
      · next hin =>
        refine wp_andThen (wp_mono (wp_writeBuffer_rig hu hw hp hin) ?_)
        rintro (e | _) w' ⟨hu', hw'⟩
        · exact ⟨hu', hw'⟩
        · exact ih hu' hw' hrest
      · exact ih hu hw hrest

/-- A register that was saved is written, or cannot be. -/
theorem wp_writeReg_rig (hu : Undoable before h₀ h w) (hw : w.refused = none) {reg : A.Reg}
    (hreg : reg ∈ h.runner.saved.map (·.1)) (v : A.Addr) :
    (rig A).wp (fun _ => True) (call (.writeReg reg v) : Link A Unit).run
      (Attempted before h₀ h) w := by
  refine wp_op ?_
  rintro (e | _) w' ha
  · obtain ⟨-, rfl⟩ := ha
    exact hu.refused _
  · obtain rfl := ha
    exact ⟨hu.writeReg hreg v, hw⟩

/-- ... and registers that were saved before, ... -/
theorem wp_writeRegs_rig (params : List (RegParam A.width × A.Reg)) :
    ∀ {w : Rig A}, Undoable before h₀ h w → w.refused = none →
      (∀ p ∈ params, p.2 ∈ h.runner.saved.map (·.1)) →
      (rig A).wp (fun _ => True) (writeRegs params).run
        (Attempted before h₀ h) w := by
  induction params with
  | nil => exact fun hu hw _ => ⟨hu, hw⟩
  | cons p rest ih =>
      intro w hu hw hsub
      obtain ⟨hp, hrest⟩ := List.forall_mem_cons.mp hsub
      obtain ⟨p, reg⟩ := p
      rw [writeRegs]
      split
      · refine wp_andThen (wp_mono (wp_writeReg_rig hu hw hp p.value) ?_)
        rintro (e | _) w' ⟨hu', hw'⟩
        · exact ⟨hu', hw'⟩
        · exact ih hu' hw' hrest
      · exact ih hu hw hrest

/-- ... those of the context included. -/
theorem wp_writeContext_rig (regs : List (A.Reg × A.Addr)) :
    ∀ {w : Rig A}, Undoable before h₀ h w → w.refused = none →
      (∀ entry ∈ regs, entry.1 ∈ h.runner.saved.map (·.1)) →
      (rig A).wp (fun _ => True) (writeContext regs).run
        (Attempted before h₀ h) w := by
  induction regs with
  | nil => exact fun hu hw _ => ⟨hu, hw⟩
  | cons entry rest ih =>
      intro w hu hw hsub
      obtain ⟨hentry, hrest⟩ := List.forall_mem_cons.mp hsub
      refine wp_andThen (wp_mono (wp_writeReg_rig hu hw hentry entry.2) ?_)
      rintro (e | _) w' ⟨hu', hw'⟩
      · exact ⟨hu', hw'⟩
      · exact ih hu' hw' hrest

/-- The breakpoint is set and remembered, or neither. -/
theorem wp_arm_rig (hu : Undoable before h₀ h w) (hw : w.refused = none)
    (hnone : h.runner.breakpoint = none) :
    (rig A).wp (fun _ => True) ((arm (A := A)).run.run h)
      (fun r => Attempted before h₀ r.2 r.1) w := by
  refine wp_get ?_
  dsimp only
  split
  · refine wp_op ?_
    rintro (_ | _) w' ha
    · obtain ⟨-, rfl⟩ := ha
      exact hu.refused _
    · obtain rfl := ha
      refine wp_op ?_
      rintro (e | _ | _) w' ha
      · obtain ⟨-, rfl⟩ := ha
        exact hu.refused _
      · obtain ⟨-, rfl⟩ := ha
        refine wp_op ?_
        rintro _ w' rfl
        exact hu.refused _
      · obtain rfl := ha
        exact ⟨hu.arm hnone _, hw⟩
  · exact ⟨hu, hw⟩

/-- Everything is put in place, or what was put in place can be undone. -/
theorem wp_load_rig (hb : h.runner.Bare) (hw : w.refused = none) :
    (rig A).wp (fun _ => True) ((load (A := A)).run.run h)
      (fun r => Attempted w h r.2 r.1) w := by
  have hsame : ({ h with runner := { h.runner with saved := [] } } : Held A) = h := by
    obtain ⟨⟨image, regs, saved, breakpoint, state, pollInterval⟩, busy⟩ := h
    obtain rfl : saved = [] := hb.saved
    rfl
  have hu : Undoable w h { h with runner := { h.runner with saved := [] } } w := by
    rw [hsame]
    exact .refl hb w
  refine wp_modify (wp_get ?_)
  refine wp_seq (wp_mono (wp_saveRegs_rig hw _ hu) ?_)
  rintro ⟨e | _, h₁⟩ w₁ ⟨⟨hu₁, hw₁⟩, hb₁, hs₁⟩
  · exact ⟨hu₁, hw₁⟩
  · -- every register that is written below was saved above
    have hsaved : ∀ reg ∈ h.runner.touched, reg ∈ h₁.runner.saved.map (·.1) :=
      fun reg hreg => hs₁ rfl reg (Or.inr hreg)
    refine wp_seq (wp_lift (wp_mono (wp_writeMem_rig _ hu₁ hw₁ fun _ hp => hp) ?_))
    rintro (e | _) w₂ ⟨hu₂, hw₂⟩
    · exact ⟨hu₂, hw₂⟩
    · refine wp_seq (wp_lift (wp_mono (wp_writeRegs_rig _ hu₂ hw₂ ?_) ?_))
      · intro p hp
        refine hsaved _ (List.mem_cons_of_mem _ (List.mem_append_left _ ?_))
        exact (List.of_mem_zip hp).2
      · rintro (e | _) w₃ ⟨hu₃, hw₃⟩
        · exact ⟨hu₃, hw₃⟩
        · refine wp_seq (wp_lift (wp_mono (wp_writeContext_rig _ hu₃ hw₃ ?_) ?_))
          · intro entry hentry
            refine hsaved _ (List.mem_cons_of_mem _ (List.mem_append_right _ ?_))
            exact List.mem_map_of_mem hentry
          · rintro (e | _) w₄ ⟨hu₄, hw₄⟩
            · exact ⟨hu₄, hw₄⟩
            · exact wp_arm_rig hu₄ hw₄ (hb₁.trans hb.breakpoint)

/-- If the core is not let go, everything can be undone. -/
theorem wp_launch_rig (hb : h.runner.Bare) (hw : w.refused = none) :
    (rig A).wp (fun _ => True) ((launch (A := A)).run.run h) (fun r w' =>
      w'.refused = failure? r.1 ∧ (∀ e, r.1 = .error e → Undoable w h r.2 w')) w := by
  refine wp_seq (wp_mono (wp_load_rig hb hw) ?_)
  rintro ⟨e | _, h₁⟩ w₁ ⟨hu₁, hw₁⟩
  · exact ⟨hw₁, fun _ _ => hu₁⟩
  · refine wp_get (wp_op ?_)
    rintro _ w₁ rfl
    refine wp_op ?_
    rintro (e | _) w₂ ha
    · obtain ⟨-, rfl⟩ := ha
      exact ⟨rfl, fun _ _ => hu₁.refuse _⟩
    · exact ⟨Eq.trans ha hw₁, nofun⟩

/-! ## Cleaning up -/

variable {e : Error}

/-- The runner's own breakpoint goes, and no other. -/
theorem wp_disarm_rig (hu : Undoable before h₀ h w) (hw : w.refused = some e) :
    (rig A).wp (fun _ => True) ((disarm (A := A)).run.run h) (fun r w' =>
      Undoable before h₀ r.2 w' ∧ w'.refused = some e ∧ r.2.runner.breakpoint = none) w := by
  refine wp_get ?_
  dsimp only
  split
  · next hb => exact ⟨hu, hw, hb⟩
  · next a hb =>
    have hbps := hu.breakpoints
    rw [armed, hb] at hbps
    refine wp_modify (wp_op ?_)
    rintro (_ | _) w₁ ha
    · exact nomatch (effect_of_answers hw ha).1
    · obtain rfl := ha
      refine wp_op ?_
      rintro (e' | _ | _) w₂ ha
      · exact nomatch (effect_of_answers hw ha).1
      · -- it was set by this start, so it cannot be absent
        obtain ⟨habsent, -⟩ := (effect_of_answers hw ha).2
        rw [hbps] at habsent
        exact absurd (Multiset.mem_cons_self _ _) habsent
      · obtain ⟨hcons, hw₂⟩ := (effect_of_answers hw ha).2
        rw [hbps] at hcons
        have hback : before.breakpoints = w₂.breakpoints := (Multiset.cons_inj_right _).mp hcons
        rw [hw₂]
        exact ⟨⟨hu.held, hu.saved, hu.regs, hback.symm, hu.memory⟩, hw, rfl⟩

/-- Every saved register gets its value back. -/
theorem wp_writeEach_rig (saved : List (A.Reg × A.Addr)) :
    ∀ {w : Rig A}, w.refused = some e → (∀ entry ∈ saved, entry.2 = before.regs entry.1) →
      (∀ reg, reg ∉ saved.map (·.1) → w.regs reg = before.regs reg) →
      (rig A).wp (fun _ => True) (writeEach saved)
        (fun r w' => r = .ok () ∧ w' = { w with regs := before.regs }) w := by
  -- on the entries left: only their registers may differ from before
  induction saved with
  | nil =>
      intro w hw _ hregs
      have hback : before.regs = w.regs := funext fun reg => (hregs reg List.not_mem_nil).symm
      exact ⟨rfl, by rw [hback]⟩
  | cons entry rest ih =>
      intro w hw hv hregs
      obtain ⟨hentry, hrest⟩ := List.forall_mem_cons.mp hv
      obtain ⟨reg, value⟩ := entry
      obtain rfl : value = before.regs reg := hentry
      refine wp_op ?_
      rintro (e' | _) w' ha
      · exact nomatch (effect_of_answers hw ha).1
      · obtain rfl := ha
        have hw' : ({ w with regs := Function.update w.regs reg (before.regs reg) } : Rig A).refused
            = some e := hw
        refine ih hw' hrest ?_
        intro reg' hreg'
        -- this one is as it was, the others are still to come or were never touched
        by_cases heq : reg' = reg
        · rw [heq]
          exact Function.update_self reg _ w.regs
        · refine (Function.update_of_ne heq _ w.regs).trans (hregs reg' ?_)
          rw [List.map_cons, List.mem_cons]
          exact fun hmem => hmem.elim heq hreg'

/-- What a failed start leaves of a target: all of it, but for input parameters. -/
structure Undone (image : A.Img) (before after : Rig A) : Prop where
  regs : after.regs = before.regs
  breakpoints : after.breakpoints = before.breakpoints
  memory : ∀ x, image.Spares x → after.memory x = before.memory x

/-- What was saved is put back. -/
theorem wp_restoreContext_rig (hu : Undoable before h₀ h w) (hw : w.refused = some e)
    (hnone : h.runner.breakpoint = none) :
    (rig A).wp (fun _ => True) ((restoreContext (A := A)).run.run h) (fun r w' =>
      r.2 = h₀ ∧ w'.refused = some e ∧ Undone h₀.runner.image before w') w := by
  refine wp_get (wp_modify (wp_seq (wp_liftDialogue
    (wp_mono (wp_writeEach_rig h.runner.saved hw hu.saved hu.regs) ?_))))
  rintro _ w' ⟨rfl, rfl⟩
  have hheld : ({ h with runner := { h.runner with saved := [] } } : Held A) = h₀ := by
    rw [← hu.held, ← hnone]
  have hbps := hu.breakpoints
  rw [armed, hnone] at hbps
  exact ⟨hheld, hw, rfl, hbps, hu.memory⟩

/-- A look at the core does nothing to it. -/
theorem wp_requireHalted_rig (hw : w.refused = none) :
    (rig A).wp (fun _ => True) (requireHalted (A := A)).run
      (fun r w' => w' = { w with refused := failure? r }) w := by
  have hsame : w = { w with refused := none } := by rw [← hw]
  refine wp_op ?_
  rintro (e | state) w' ha
  · exact ha.2
  · show (rig A).wp _ (ExceptT.run (if state ≠ .halted then _ else _)) _ _
    cases state with
    | halted =>
        obtain rfl := ha
        exact hsame
    | _ =>
        obtain ⟨-, rfl⟩ := ha
        refine wp_op ?_
        rintro _ _ rfl
        exact rfl

/-- A start fails with what went wrong, and leaves no trace. -/
theorem wp_start_rig (hbusy : h.busy = false) (hidle : h.runner.state.isActive = false)
    (hb : h.runner.Bare) (hw : w.refused = none) :
    (rig A).wp (fun _ => True) ((start (A := A)).run.run h) (fun r w' =>
      w'.refused = failure? r.1 ∧
        (∀ e, r.1 = .error e → r.2 = h ∧ Undone h.runner.image w w')) w := by
  refine wp_get ?_
  rw [hbusy, hidle]
  refine wp_seq (wp_lift (wp_mono (wp_requireHalted_rig hw) ?_))
  rintro (e | _) _ rfl
  · exact ⟨rfl, fun _ _ => ⟨rfl, rfl, rfl, fun _ _ => rfl⟩⟩
  · refine wp_seq (wp_outcome (wp_mono (wp_launch_rig hb rfl) ?_))
    rintro ⟨e | _, h₁⟩ w₁ ⟨hw₁, hu₁⟩
    · refine wp_seq (wp_outcome (wp_mono (wp_disarm_rig (hu₁ e rfl) hw₁) ?_))
      rintro ⟨_, h₂⟩ w₂ ⟨hu₂, hw₂, hnone⟩
      refine wp_seq (wp_outcome (wp_mono (wp_restoreContext_rig hu₂ hw₂ hnone) ?_))
      rintro ⟨_, h₃⟩ w₃ ⟨rfl, hw₃, hdone⟩
      exact ⟨hw₃, fun _ _ => ⟨rfl, hdone.regs, hdone.breakpoints, hdone.memory⟩⟩
    · exact ⟨hw₁, nofun⟩

end Runner

namespace Bay

variable {bay bay' : Bay A} {w w' : Rig A} {error : Option Error}

/-- What a start says, and what is left of bay and target if it failed. -/
theorem wp_start_rig (i : Fin bay.runners.length)
    (hidle : (bay.held i).runner.state.isActive = false)
    (hb : (bay.held i).runner.Bare) (hw : w.refused = none) :
    (rig A).wp (fun _ => True) (bay.perform i .start) (fun r w' =>
      r.1 = (if bay.busy then some .alreadyRunning else w'.refused) ∧
        (r.1.isSome → r.2 = bay ∧ Runner.Undone (bay.held i).runner.image w w')) w := by
  cases hbusy : bay.busy with
  | true =>
      have hstarts : Task.start.Starts := trivial
      rw [perform_busy hbusy i hstarts]
      refine Rig.wp_op ?_
      rintro _ _ rfl
      exact ⟨rfl, fun _ => ⟨rfl, rfl, rfl, fun _ _ => rfl⟩⟩
  | false =>
      refine (wp_bind _ _).mpr ((wp_bind _ _).mpr
        (wp_mono (Runner.wp_start_rig (h := bay.held i) hbusy hidle hb hw) ?_))
      rintro ⟨e | _, h'⟩ w' ⟨hw', hdone⟩
      · obtain ⟨rfl, hundone⟩ := hdone e rfl
        exact ⟨hw'.symm, fun _ => ⟨put_held bay i, hundone⟩⟩
      · exact ⟨hw'.symm, nofun⟩

/-- A FAILED START LEAVES THE CORE THE WAY IT WAS FOUND.  It reports what went wrong; the guard and
    all runners are what they were before, and the one that was started holds nothing; registers,
    breakpoints, and memory apart from input parameters are what they were. -/
theorem Reachable.start_undone (hr : bay.Reachable) (i : Fin bay.runners.length)
    (hidle : (bay.held i).runner.state.isActive = false) (hw : w.refused = none)
    (hrun : (rig A).Reaches (bay.perform i .start) w (.done (error, bay')) w') :
    error = (if bay.busy then some .alreadyRunning else w'.refused) ∧
      (error.isSome → bay' = bay ∧ (bay.held i).runner.Bare ∧
        Runner.Undone (bay.held i).runner.image w w') := by
  have hbare := hr.tidy _ (List.getElem_mem i.isLt) hidle
  obtain ⟨herror, hdone⟩ := wp_done_at (fun _ => ⟨False.elim, fun _ => trivial⟩)
    (wp_start_rig i hidle hbare hw) hrun
  refine ⟨herror, fun hsome => ?_⟩
  obtain ⟨hbay, hundone⟩ := hdone hsome
  exact ⟨hbay, hbare, hundone⟩

/-- An algorithm of a plain core with parameters and an exit point. -/
def sampleImage : Image 32 Unit where
  entry := 0x1000
  exit := 0x1010
  mem := [.input 0x2000 [1, 2]]
  regs := [{ name := "lr", value := 7, direction := .input }]
  info := ()

/-- A bay with a runner of it. -/
def sampleIdle : Bay (plainCore 32) where
  runners := [{ image := sampleImage, regs := [.lr] }]

/-- A target where someone else has set a breakpoint at the exit point. -/
def sampleRig : Rig (plainCore 32) where
  regs := fun _ => 0x40
  memory := fun _ => 0
  breakpoints := {(0x1010, 1)}

theorem sampleIdle_reachable : sampleIdle.Reachable := by
  have haccepted : Runner.ofImage? sampleImage =
      .ok ({ image := sampleImage, regs := [.lr] } : Runner (plainCore 32)) := rfl
  exact .accept 1 .empty haccepted

theorem Reachable.start_undone_taken : ∃ w',
    (rig (plainCore 32)).Reaches (sampleIdle.perform (0 : Fin 1) .start) sampleRig
      (.done (some (.unsupported "breakpoints"), sampleIdle)) w' ∧
    w'.refused = some (.unsupported "breakpoints") ∧
    Runner.Undone sampleImage sampleRig w' := by
  have hrun : ∃ w', (rig (plainCore 32)).Reaches (sampleIdle.perform (0 : Fin 1) .start) sampleRig
      (.done (some (.unsupported "breakpoints"), sampleIdle)) w' := by
    -- it is halted; two registers are saved, and the parameters are written
    refine ⟨_, .answer (.ok .halted) rfl (.answer (.ok 0x40) ⟨rfl, rfl⟩
      (.answer (.ok 0x40) ⟨rfl, rfl⟩ (.answer () rfl (.answer (.ok ()) rfl
      -- the breakpoint is not set, and the registers are put back
      (.answer (.ok ()) rfl (.answer true rfl (.answer (.ok false) ⟨rfl, rfl⟩ (.answer () rfl
      (.answer (.ok ()) rfl (.answer (.ok ()) rfl (.refl _ _)))))))))))⟩
  obtain ⟨w', hrun⟩ := hrun
  obtain ⟨herror, hdone⟩ := Reachable.start_undone sampleIdle_reachable (0 : Fin 1) rfl rfl hrun
  exact ⟨w', hrun, herror.symm, (hdone rfl).2.2⟩

end Bay

end DebugLink
