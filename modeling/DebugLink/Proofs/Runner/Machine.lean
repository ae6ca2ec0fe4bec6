import DebugLink.Proofs.Bench
import DebugLink.Proofs.Runner.Steady
import Mathlib.Logic.Function.Basic

/-!
# A machine that does as it likes

`machine` is a target on which accesses to registers, memory and breakpoints succeed, and of
which nothing else is known.  While its core is not halted, registers and memory may change in
any way; polls, resumes and halts may fail; the host answers anything.

* `Machine.found` is what the last poll found, if it found the core halted, and
  `Machine.launched` is what the poll before the last resume found: the registers BEFORE a run.
* `wp_still` is the rule for a halted core: nothing happens between two operations.
* The lemmas on the parts of a run say what they save, put back and read back, exactly.
-/

namespace DebugLink

open Environment Dialogue

/-- What registers and memory hold. -/
structure Snapshot (A : Arch) where
  regs : A.Reg → A.Addr
  memory : Contents

/-- A target, and what was seen of it. -/
structure Machine (A : Arch) extends Snapshot A where
  halted : Bool
  /-- What the last poll found, if it found the core halted. -/
  found : Option (Snapshot A)
  /-- What the last poll before the last resume had found. -/
  launched : Option (Snapshot A)

variable {A : Arch} {α : Type}

namespace Machine

/-- How the machine answers. -/
def answers (m : Machine A) : (op : Op A) → op.Answer → Machine A → Prop
  | .call (.read a n), r, m' =>
      (∃ bytes, r = .ok bytes ∧ bytes.val = m.memory.slice a.toNat n) ∧ m' = m
  | .call (.write a bs), r, m' => r = .ok () ∧ m' = { m with memory := m.memory.store a.toNat bs }
  | .call (.readReg reg), r, m' => r = .ok (m.regs reg) ∧ m' = m
  | .call (.writeReg reg v), r, m' =>
      r = .ok () ∧ m' = { m with regs := Function.update m.regs reg v }
  | .call (.addBreakpoint ..), r, m' => (∃ set, r = .ok set) ∧ m' = m
  | .call (.removeBreakpoint ..), r, m' => (∃ removed, r = .ok removed) ∧ m' = m
  | .call .poll, .ok .halted, m' =>
      m.halted = true ∧ m' = { m with found := some m.toSnapshot }
  | .call .poll, _, m' => m' = { m with found := none }
  | .call (.resume ..), _, m' => m' = { m with halted := false, launched := m.found }
  | _, _, m' => m' = m

/-- What does not change while a halted core is worked on. -/
def status (m : Machine A) : Bool × Option (Snapshot A) × Option (Snapshot A) :=
  (m.halted, m.found, m.launched)

end Machine

/-- A machine as an environment. -/
def machine (A : Arch) : Environment A (Machine A) where
  moves m m' := m.halted = false ∧ m'.found = m.found ∧ m'.launched = m.launched
  answers := Machine.answers

/-- `Q` holds in the end, whatever the machine does and the host answers. -/
abbrev Dialogue.Ensures (d : Dialogue A α) (Q : α → Machine A → Prop) (m : Machine A) : Prop :=
  (machine A).wp (fun _ => True) d Q m

namespace Machine

variable {m m' : Machine A} {Q : α → Machine A → Prop}

/-! ## Rules -/

/-- Nothing happens to a halted core between two operations. -/
theorem lasts_halted (hm : m.halted = true) : (machine A).Lasts (fun _ => True) (· = m) := by
  refine ⟨?_, fun _ => trivial⟩
  rintro w w' ⟨hw, -⟩ rfl
  exact absurd hm (by rw [hw]; exact nofun)

theorem wp_still (hm : m.halted = true) {op : Op A} {next : op.Answer → Dialogue A α}
    (hn : ∀ a m', m.answers op a m' → (next a).Ensures Q m') :
    (Dialogue.ask op next).Ensures Q m := by
  refine wp_ask (lasts_halted hm) rfl ?_
  rintro _ a m' rfl ha
  exact hn a m' ha

/-- Only polls and resumes change what was seen of the machine. -/
theorem status_of_answers {op : Op A} {a : op.Answer} (hop : op.Steady) (ha : m.answers op a m') :
    m'.status = m.status := by
  cases op with
  | call c =>
      cases c with
      | resume address flags => exact hop.elim
      | poll => exact hop.elim
      | halt => exact (show m' = m from ha) ▸ rfl
      | mmuEnabled => exact (show m' = m from ha) ▸ rfl
      | _ => exact ha.2 ▸ rfl
  | _ => exact (show m' = m from ha) ▸ rfl

/-- Only a resume changes what the last resume began with. -/
theorem launched_of_answers {op : Op A} {a : op.Answer} (hop : op.Restful)
    (ha : m.answers op a m') : m'.launched = m.launched := by
  cases op with
  | call c =>
      cases c with
      | resume address flags => exact hop.elim
      | poll =>
          cases a with
          | error e => exact (show m' = _ from ha) ▸ rfl
          | ok state =>
              cases state with
              | halted => exact ha.2 ▸ rfl
              | _ => exact (show m' = _ from ha) ▸ rfl
      | halt => exact (show m' = m from ha) ▸ rfl
      | mmuEnabled => exact (show m' = m from ha) ▸ rfl
      | _ => exact ha.2 ▸ rfl
  | _ => exact (show m' = m from ha) ▸ rfl

/-- Steady operations leave a halted core halted. -/
theorem wp_steady {d : Dialogue A α} {Q : α → Prop} (hd : d.Within Op.Steady Q)
    (hm : m.halted = true) : d.Ensures (fun a m' => Q a ∧ m'.status = m.status) m := by
  induction d generalizing m with
  | done a => exact ⟨hd, rfl⟩
  | ask op next ih =>
      refine wp_still hm fun a m' ha => ?_
      have hs := status_of_answers hd.1 ha
      have hm' : m'.halted = true := (congrArg (·.1) hs).trans hm
      refine wp_mono (ih a (hd.2 a) hm') ?_
      rintro b m'' ⟨hb, hs'⟩
      exact ⟨hb, hs'.trans hs⟩

/-- As long as the core is not let go, it stays known what the last resume began with. -/
theorem wp_restful {d : Dialogue A α} {Q : α → Prop} (hd : d.Within Op.Restful Q)
    (m : Machine A) : d.Ensures (fun a m' => Q a ∧ m'.launched = m.launched) m := by
  induction d generalizing m with
  | done a => exact ⟨hd, rfl⟩
  | ask op next ih =>
      have hP : (machine A).Lasts (fun _ => True) fun w => w.launched = m.launched :=
        ⟨fun hmove h => hmove.2.2.trans h, fun _ => trivial⟩
      refine wp_ask hP rfl fun w a w' hw ha => ?_
      refine wp_mono (ih a (hd.2 a) w') ?_
      rintro b w'' ⟨hb, hl⟩
      exact ⟨hb, hl.trans ((launched_of_answers hd.1 ha).trans hw)⟩

end Machine

/-- All of the registers are saved, with what they held before. -/
structure Saves (saved : List (A.Reg × A.Addr)) (touched : List A.Reg)
    (before : A.Reg → A.Addr) : Prop where
  covers : ∀ reg ∈ touched, reg ∈ saved.map (·.1)
  values : ∀ entry ∈ saved, entry.2 = before entry.1

/-- A memory parameter with what is read back. -/
def MemParam.readBack {w : Nat} (memory : Contents) (p : MemParam w) : MemParam w :=
  if p.direction.isOutput then
    { p with data := memory.slice p.address.toNat p.data.length }
  else p

/-- A register parameter with what is read back. A core has all registers that an accepted image
    names. -/
def RegParam.readBack (regs : A.Reg → A.Addr) (p : RegParam A.width) : RegParam A.width :=
  if p.direction.isOutput then { p with value := ((A.reg? p.name).map regs).getD 0 } else p

namespace Runner

open Machine

variable {m : Machine A}

/-! ## Saving registers, and putting them back -/

/-- Registers are saved with what they hold. -/
theorem wp_saveRegs (hm : m.halted = true) (regs : List A.Reg) (h : Held A)
    (hv : ∀ entry ∈ h.runner.saved, entry.2 = m.regs entry.1) :
    ((saveRegs regs).run.run h).Ensures (fun r m' => m' = m ∧ r.1 = .ok () ∧
      Saves r.2.runner.saved (h.runner.saved.map (·.1) ++ regs) m.regs) m := by
  -- on the registers to come; those saved already have the values that the machine still has
  induction regs generalizing h with
  | nil => exact ⟨rfl, rfl, by simp, hv⟩
  | cons reg rest ih =>
      refine wp_get ?_
      split
      · refine wp_still hm ?_
        rintro _ m ⟨rfl, rfl⟩
        refine wp_mono (ih { h with runner.saved := h.runner.saved ++ [(reg, m.regs reg)] } ?_) ?_
        · intro entry he
          rcases List.mem_append.mp he with he | he
          · exact hv entry he
          · rw [List.mem_singleton.mp he]
        · rintro r m' ⟨hm', hr, hs⟩
          refine ⟨hm', hr, fun reg' hreg' => hs.covers reg' ?_, hs.values⟩
          simpa using hreg'
      · -- it was saved before, so it is covered
        next hsaved =>
        refine wp_mono (ih h hv) ?_
        rintro r m' ⟨hm', hr, hs⟩
        refine ⟨hm', hr, fun reg' hreg' => hs.covers reg' ?_, hs.values⟩
        have hmem : reg ∈ h.runner.saved.map (·.1) := by simpa using hsaved
        rcases List.mem_append.mp hreg' with hreg' | hreg'
        · exact List.mem_append_left _ hreg'
        · rcases List.mem_cons.mp hreg' with rfl | hreg'
          · exact List.mem_append_left _ hmem
          · exact List.mem_append_right _ hreg'

/-- Writing saved values puts back those registers, and leaves the others alone. -/
theorem wp_writeEach {before : A.Reg → A.Addr} (saved : List (A.Reg × A.Addr))
    (hm : m.halted = true) (hv : ∀ entry ∈ saved, entry.2 = before entry.1) :
    (writeEach saved).Ensures (fun r m' => r = .ok () ∧ m'.status = m.status ∧
      ∀ reg, m'.regs reg = if reg ∈ saved.map (·.1) then before reg else m.regs reg) m := by
  induction saved generalizing m with
  | nil => exact ⟨rfl, rfl, fun reg => by simp⟩
  | cons entry rest ih =>
      obtain ⟨reg, value⟩ := entry
      obtain rfl : value = before reg := hv _ List.mem_cons_self
      refine wp_still hm ?_
      rintro _ _ ⟨rfl, rfl⟩
      refine wp_mono (ih hm fun entry he => hv entry (List.mem_cons_of_mem _ he)) ?_
      rintro r m' ⟨hr, hs, hregs⟩
      refine ⟨hr, hs, fun reg' => ?_⟩
      rw [hregs reg']
      by_cases hrest : reg' ∈ rest.map (·.1)
      · simp [hrest]
      · by_cases heq : reg' = reg
        · simp [heq]
        · simp [hrest, heq, Function.update_of_ne]

/-- All saved registers are put back. -/
theorem wp_restoreContext {touched : List A.Reg} {before : A.Reg → A.Addr} {h : Held A}
    (hm : m.halted = true) (hs : Saves h.runner.saved touched before) :
    ((restoreContext (A := A)).run.run h).Ensures (fun r m' => r.1 = .ok () ∧
      r.2 = { h with runner.saved := [] } ∧ m'.status = m.status ∧
      ∀ reg ∈ touched, m'.regs reg = before reg) m := by
  refine wp_get (wp_modify ?_)
  refine wp_seq (wp_liftDialogue (wp_mono (wp_writeEach h.runner.saved hm hs.values) ?_))
  rintro _ m' ⟨rfl, hstatus, hregs⟩
  refine ⟨rfl, rfl, hstatus, fun reg hreg => ?_⟩
  rw [hregs reg, if_pos (hs.covers reg hreg)]

/-- The breakpoint is forgotten; nothing else happens. -/
theorem wp_disarm (hm : m.halted = true) (h : Held A) :
    ((disarm (A := A)).run.run h).Ensures (fun r m' => r.1 = .ok () ∧
      r.2 = { h with runner.breakpoint := none } ∧ m' = m) m := by
  refine wp_get ?_
  dsimp only
  split
  · next hb =>
    refine ⟨rfl, ?_, rfl⟩
    obtain ⟨⟨image, regs, saved, breakpoint, state, pollInterval⟩, busy⟩ := h
    obtain rfl : breakpoint = none := hb
    rfl
  · refine wp_modify (wp_still hm ?_)
    rintro (_ | _) _ rfl
    · exact ⟨rfl, rfl, rfl⟩
    · refine wp_still hm ?_
      rintro _ _ ⟨⟨_ | _, rfl⟩, rfl⟩
      · refine wp_still hm ?_
        rintro _ _ rfl
        exact ⟨rfl, rfl, rfl⟩
      · exact ⟨rfl, rfl, rfl⟩

/-! ## Reading back -/

/-- What is read is what is there. -/
theorem wp_readBuffer (hm : m.halted = true) (a : A.Addr) (n : Nat) :
    (readBuffer a n).run.Ensures (fun r m' => m' = m ∧
      ∀ bytes, r = .ok bytes → bytes.val = m.memory.slice a.toNat n) m := by
  rw [readBuffer]
  refine wp_andThen (wp_still hm ?_)
  rintro _ m rfl
  show (machine A).wp _
    (ExceptT.run (if h : n = 0 then (pure ⟨[], h.symm⟩ : Link A (Bytes n)) else _)) _ _
  split
  · -- nothing to read, as it is not asked for
    next hn =>
    subst hn
    refine ⟨rfl, ?_⟩
    rintro _ ⟨⟩
    rfl
  · refine wp_andThen ?_
    rw [checkFits]
    split
    · refine wp_still hm ?_
      rintro _ m ⟨⟨bytes, rfl, hb⟩, rfl⟩
      refine ⟨rfl, ?_⟩
      rintro _ ⟨⟩
      exact hb
    · refine wp_still hm ?_
      rintro _ m rfl
      refine ⟨rfl, ?_⟩
      rintro _ ⟨⟩

theorem wp_readMem (hm : m.halted = true) (params : List (MemParam A.width)) :
    (readMem params).Ensures (fun r m' => m' = m ∧
      (r.1 = .ok () → r.2 = params.map (MemParam.readBack m.memory))) m := by
  -- on the parameters: an input is kept as it is, an output read
  induction params with
  | nil => exact ⟨rfl, fun _ => rfl⟩
  | cons p rest ih =>
      rw [readMem]
      split
      · next hp =>
        refine (wp_bind _ _).mpr (wp_mono (wp_readBuffer hm _ _) ?_)
        rintro (e | bytes) m ⟨rfl, hbytes⟩
        · refine ⟨rfl, ?_⟩
          rintro ⟨⟩
        · refine (wp_bind _ _).mpr (wp_mono ih ?_)
          rintro ⟨result, rest'⟩ m ⟨rfl, hrest⟩
          refine ⟨rfl, fun hr => ?_⟩
          rw [List.map_cons, ← hrest hr, MemParam.readBack, if_pos hp, ← hbytes bytes rfl]
      · next hp =>
        refine (wp_bind _ _).mpr (wp_mono ih ?_)
        rintro ⟨result, rest'⟩ m ⟨rfl, hrest⟩
        refine ⟨rfl, fun hr => ?_⟩
        rw [List.map_cons, ← hrest hr, MemParam.readBack, if_neg hp]

/-- The registers of a list of parameters, one after the other. -/
theorem resolve_cons {p : RegParam A.width} {rest : List (RegParam A.width)} {regs : List A.Reg}
    (h : resolve A (p :: rest) = .ok regs) :
    ∃ reg regs', A.reg? p.name = some reg ∧ resolve A rest = .ok regs' ∧ regs = reg :: regs' := by
  rw [resolve] at h
  split at h
  · cases h
  · next reg hreg =>
    cases hrest : resolve A rest with
    | error e =>
        rw [hrest] at h
        cases h
    | ok regs' =>
        rw [hrest] at h
        cases h
        exact ⟨reg, regs', hreg, rfl, rfl⟩

theorem wp_readRegs (hm : m.halted = true) (params : List (RegParam A.width))
    (regs : List A.Reg) (hregs : resolve A params = .ok regs) :
    (readRegs params regs).Ensures (fun r m' => m' = m ∧ r.1 = .ok () ∧
      r.2 = params.map (RegParam.readBack m.regs)) m := by
  induction params generalizing regs with
  | nil =>
      cases regs <;> exact ⟨rfl, rfl, rfl⟩
  | cons p rest ih =>
      obtain ⟨reg, regs', hreg, hregs', rfl⟩ := resolve_cons hregs
      rw [readRegs]
      split
      · next hp =>
        refine wp_still hm ?_
        rintro _ m ⟨rfl, rfl⟩
        show (machine A).wp _ (readRegs rest regs' >>= _) _ _
        refine (wp_bind _ _).mpr (wp_mono (ih regs' hregs') ?_)
        rintro ⟨result, rest'⟩ m ⟨rfl, hr, hrest⟩
        refine ⟨rfl, hr, ?_⟩
        rw [List.map_cons, ← hrest, RegParam.readBack, if_pos hp, hreg]
        rfl
      · next hp =>
        refine (wp_bind _ _).mpr (wp_mono (ih regs' hregs') ?_)
        rintro ⟨result, rest'⟩ m ⟨rfl, hr, hrest⟩
        refine ⟨rfl, hr, ?_⟩
        rw [List.map_cons, ← hrest, RegParam.readBack, if_neg hp]

/-- What is collected is what the halted core and its memory hold. -/
theorem wp_collect (hm : m.halted = true) {h : Held A}
    (hregs : resolve A h.runner.image.regs = .ok h.runner.regs) :
    ((collect (A := A)).run.run h).Ensures (fun r m' => m' = m ∧
      r.2.runner.saved = h.runner.saved ∧
      (r.1 = .ok () →
        (h.runner.image.exit = 0 ∨ m.regs A.pc = h.runner.image.exit) ∧
        r.2.runner.image = { h.runner.image with
          mem := h.runner.image.mem.map (MemParam.readBack m.memory)
          regs := h.runner.image.regs.map (RegParam.readBack m.regs) })) m := by
  refine wp_seq (wp_mono (wp_disarm hm h) ?_)
  rintro ⟨_, _⟩ m ⟨rfl, rfl, rfl⟩
  refine wp_get (wp_seq (wp_still hm ?_))
  rintro _ m ⟨rfl, rfl⟩
  show (machine A).wp _ ((if _ then _ else _ : RunM A Unit).run.run _) _ _
  split
  · refine wp_still hm ?_
    rintro _ m rfl
    exact ⟨rfl, rfl, nofun⟩
  · -- the core has stopped where the image says, or the image does not say where
    next hexit =>
    have hexit : h.runner.image.exit = 0 ∨ m.regs A.pc = h.runner.image.exit := by
      by_cases h0 : h.runner.image.exit = 0
      · exact Or.inl h0
      · exact Or.inr (Decidable.of_not_not fun hpc => hexit ⟨h0, hpc⟩)
    refine wp_seq (wp_liftDialogue (wp_mono (wp_readMem hm _) ?_))
    rintro ⟨_ | _, mem⟩ m ⟨rfl, hmem⟩
    · exact ⟨rfl, rfl, nofun⟩
    · -- nothing was refused, so all of the memory was read
      obtain rfl : mem = _ := hmem rfl
      refine wp_modify ?_
      show (machine A).wp _ ((liftM (readRegs _ _) >>= _ : RunM A Unit).run.run _) _ _
      refine wp_seq (wp_liftDialogue (wp_mono (wp_readRegs hm _ _ hregs) ?_))
      rintro ⟨_, _⟩ m ⟨rfl, rfl, rfl⟩
      exact ⟨rfl, rfl, fun _ => ⟨hexit, rfl⟩⟩

end Runner

end DebugLink
