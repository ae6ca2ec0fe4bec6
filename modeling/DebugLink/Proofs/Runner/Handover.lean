import DebugLink.Arch.CortexM
import DebugLink.Proofs.Path
import DebugLink.Proofs.Runner.FailedStart
import DebugLink.Proofs.Runner.Transparency
import Mathlib.Data.List.Nodup

/-!
# What the core finds when it is let go

A start walks through three lists: the memory blocks that an image hands over, its register
parameters, and the registers that the architecture asks for.  Several names may stand for one
register, and blocks may overlap; what counts in the end is THE LAST ENTRY, and the context comes
after the parameters.

* `obliging` is a halted target whose calls succeed, and where nothing happens but what it is asked
  to do.
* `HandedOver` is what it has come to when the core is let go: `lastValue?` reads the value of a
  register off the lists, and memory is what `handMemory` makes of it.
* `SavedOnce` is what can be put back by then.  No register is in it twice, so that THE ORDER DOES
  NOT MATTER in which it is put back (`Runner.restores_any_order`).
* The lemmas on the parts of a start say what each of them does on such a target, exactly; only a
  block that runs past the end of the address space stops it.
-/

namespace DebugLink

open Environment Dialogue Transcript

variable {A : Arch} {α : Type}

/-- The target did what it was asked to.  Notes are not for the target. -/
def Event.Granted : Event A → Prop
  | ⟨.note _, _⟩ => True
  | event => event.refusal? = none

/-- A halted target whose calls succeed, and that nobody else has to do with. -/
def obliging (A : Arch) : Environment A (Rig A) where
  moves _ _ := False
  answers w op a w' := Event.Granted ⟨op, a⟩ ∧ w.effect op a w'

/-! ## Lists of entries -/

/-- The value of the last entry for a register. -/
def lastValue? (entries : List (A.Reg × A.Addr)) (reg : A.Reg) : Option A.Addr :=
  (entries.reverse.find? (·.1 = reg)).map (·.2)

/-- Registers after a list of entries was written to them, one after the other. -/
def handRegs (entries : List (A.Reg × A.Addr)) (regs : A.Reg → A.Addr) : A.Reg → A.Addr :=
  entries.foldl (fun regs entry => Function.update regs entry.1 entry.2) regs

/-- The register parameters that are written before a start, each with its register. -/
def inputRegs (A : Arch) (params : List (RegParam A.width)) : List (A.Reg × A.Addr) :=
  params.filterMap fun p =>
    if p.direction.isInput then (A.reg? p.name).map fun reg => (reg, p.value) else none

/-- Memory after the blocks that are written before a start, one after the other; empty ones are
    passed over. -/
def handMemory {w : Nat} (params : List (MemParam w)) (memory : Contents) : Contents :=
  (params.filter fun p => p.direction.isInput && !p.data.isEmpty).foldl
    (fun memory p => memory.store p.address.toNat p.data) memory

/-- THE LAST ENTRY COUNTS. -/
theorem handRegs_apply (entries : List (A.Reg × A.Addr)) (regs : A.Reg → A.Addr) (reg : A.Reg) :
    handRegs entries regs reg = (lastValue? entries reg).getD (regs reg) := by
  induction entries generalizing regs with
  | nil => rfl
  | cons entry rest ih =>
      have hstep : handRegs (entry :: rest) regs =
          handRegs rest (Function.update regs entry.1 entry.2) := rfl
      rw [hstep, ih, lastValue?, lastValue?, List.reverse_cons, List.find?_append]
      cases rest.reverse.find? (·.1 = reg) with
      | some last => rfl
      | none =>
          by_cases heq : entry.1 = reg
          · subst heq
            simp
          · have hne : reg ≠ entry.1 := fun h => heq h.symm
            simp [heq, Function.update_of_ne hne]

/-- What the core finds when it is let go, given what was there `before` the start. -/
structure HandedOver (image : A.Img) (before w : Rig A) : Prop where
  /-- The context has the last word, then the parameters. -/
  regs : ∀ reg, w.regs reg = (lastValue? (A.context image.info) reg).getD
    ((lastValue? (inputRegs A image.regs) reg).getD (before.regs reg))
  memory : w.memory = handMemory image.mem before.memory
  breakpoints : w.breakpoints =
    if image.exit = 0 then before.breakpoints
    else (image.exit, A.exitKind image.info) ::ₘ before.breakpoints

/-- The registers that are `touched` are saved, each of them once, with what they held before. -/
structure SavedOnce (touched : A.Reg → Prop) (before : A.Reg → A.Addr)
    (saved : List (A.Reg × A.Addr)) : Prop where
  once : (saved.map (·.1)).Nodup
  covers : ∀ reg, reg ∈ saved.map (·.1) ↔ touched reg
  values : ∀ entry ∈ saved, entry.2 = before entry.1

/-- Registers after those that were saved have got back what they held before. -/
def putBack (saved : List (A.Reg × A.Addr)) (before now : A.Reg → A.Addr) (reg : A.Reg) : A.Addr :=
  if reg ∈ saved.map (·.1) then before reg else now reg

/-! ## How the lists are taken apart -/

theorem handMemory_cons {v : Nat} (p : MemParam v) (rest : List (MemParam v)) (memory : Contents) :
    handMemory (p :: rest) memory =
      handMemory rest (if p.direction.isInput then
        if p.data.isEmpty then memory else memory.store p.address.toNat p.data
        else memory) := by
  rw [handMemory, List.filter_cons]
  cases p.direction.isInput <;> cases p.data.isEmpty <;> rfl

theorem inputRegs_cons (p : RegParam A.width) (rest : List (RegParam A.width)) :
    inputRegs A (p :: rest) =
      if p.direction.isInput then
        ((A.reg? p.name).map fun reg => (reg, p.value)).toList ++ inputRegs A rest
      else inputRegs A rest := by
  rw [inputRegs, List.filterMap_cons]
  cases p.direction.isInput with
  | false => rfl
  | true => cases A.reg? p.name <;> rfl

namespace SavedOnce

variable {done : List A.Reg} {touched : A.Reg → Prop} {before : A.Reg → A.Addr}
  {saved : List (A.Reg × A.Addr)} {reg : A.Reg}

/-- One more register is saved. -/
theorem append (h : SavedOnce (· ∈ done) before saved) (hnew : reg ∉ saved.map (·.1)) :
    SavedOnce (· ∈ done ++ [reg]) before (saved ++ [(reg, before reg)]) where
  once := by
    rw [List.map_append]
    exact h.once.append (List.nodup_singleton reg) (List.disjoint_singleton.mpr hnew)
  covers := fun reg' => by
    rw [List.map_append, List.mem_append, List.mem_append, h.covers]
    rfl
  values := by
    intro entry he
    rcases List.mem_append.mp he with he | he
    · exact h.values entry he
    · rw [List.mem_singleton.mp he]

/-- It is saved already. -/
theorem again (h : SavedOnce (· ∈ done) before saved) (hold : reg ∈ saved.map (·.1)) :
    SavedOnce (· ∈ done ++ [reg]) before saved where
  once := h.once
  covers := fun reg' => by
    rw [h.covers, List.mem_append, List.mem_singleton]
    refine ⟨Or.inl, fun hmem => hmem.elim id ?_⟩
    rintro rfl
    exact (h.covers reg').mp hold
  values := h.values

end SavedOnce

/-! ## An obliging target -/

section Obliging

variable {w w' : Rig A} {Q : α → Rig A → Prop}

/-- Nothing happens on its own. -/
theorem wp_granted {op : Op A} {next : op.Answer → Dialogue A α}
    (hn : ∀ a w', Event.Granted ⟨op, a⟩ → w.effect op a w' →
      (obliging A).wp (fun _ => True) (next a) Q w') :
    (obliging A).wp (fun _ => True) (.ask op next) Q w := by
  have hP : (obliging A).Lasts (fun _ => True) (· = w) := ⟨fun hm => hm.elim, fun _ => trivial⟩
  refine wp_ask hP rfl ?_
  rintro _ a w' rfl ⟨hgranted, heffect⟩
  exact hn a w' hgranted heffect

/-- Nothing happens to the target by a note. -/
theorem wp_noted {n : Note} {next : Unit → Dialogue A α}
    (hn : (obliging A).wp (fun _ => True) (next ()) Q w) :
    (obliging A).wp (fun _ => True) (.ask (.note n) next) Q w := by
  refine wp_granted ?_
  rintro _ _ - rfl
  exact hn

/-- It has an answer to everything. -/
theorem obliging_answers (w : Rig A) (op : Op A) : ∃ a w', (obliging A).answers w op a w' := by
  cases op with
  | call c =>
      cases c with
      | read a n =>
          exact ⟨.ok ⟨w.memory.slice a.toNat n, Contents.length_slice _ _ _⟩, w, rfl, rfl, rfl⟩
      | write a bs => exact ⟨.ok (), _, rfl, rfl⟩
      | readReg reg => exact ⟨.ok (w.regs reg), w, rfl, rfl, rfl⟩
      | writeReg reg v => exact ⟨.ok (), _, rfl, rfl⟩
      | halt => exact ⟨.ok (), w, rfl, rfl⟩
      | resume a flags => exact ⟨.ok (), w, rfl, rfl⟩
      | poll => exact ⟨.ok .halted, w, rfl, rfl⟩
      | addBreakpoint a kind => exact ⟨.ok true, _, rfl, rfl⟩
      -- a breakpoint that is not there cannot be removed, and the answer says so
      | removeBreakpoint a kind =>
          by_cases hmem : (a, kind) ∈ w.breakpoints
          · obtain ⟨rest, hrest⟩ := Multiset.exists_cons_of_mem hmem
            exact ⟨.ok true, { w with breakpoints := rest }, rfl, hrest, rfl⟩
          · exact ⟨.ok false, w, rfl, hmem, rfl⟩
      | mmuEnabled => exact ⟨.ok false, w, rfl, rfl⟩
  | feature f =>
      cases f with
      | endian => exact ⟨.little, w, rfl, rfl⟩
      | breakpoints => exact ⟨true, w, rfl, rfl⟩
      | mmu => exact ⟨false, w, rfl, rfl⟩
  | host r =>
      cases r with
      | now => exact ⟨0, w, rfl, rfl⟩
      | sleep ms => exact ⟨(), w, rfl, rfl⟩
      | keepAlive => exact ⟨(), w, rfl, rfl⟩
      | shutdownPending => exact ⟨false, w, rfl, rfl⟩
  | note n => exact ⟨(), w, trivial, rfl⟩

/-- Nothing happens to the target by a note. -/
theorem plays_noted {n : Note} (h : (obliging A).Plays w [⟨.note n, ()⟩] w') : w' = w := by
  cases h with
  | move hm => exact hm.elim
  | event _ ha hrest =>
      cases hrest with
      | move hm => exact hm.elim
      | nil => exact ha.2

/-- What a weakest precondition says of the end of a path. -/
theorem path_obliging {d : Dialogue A α} {log : Transcript A} {x : α}
    (h : (obliging A).wp (fun _ => True) d Q w) (hpath : d.Path log x)
    (hplays : (obliging A).Plays w log w') : Q x w' :=
  wp_done_at (fun _ => ⟨False.elim, fun _ => trivial⟩) h
    (reaches_iff_plays.mpr ⟨log, hpath, hplays⟩)

end Obliging

/-- A block that the image hands over runs past the end of the address space. -/
def Image.Wraps (image : A.Img) (e : Error) : Prop :=
  ∃ p ∈ image.mem, p.direction.isInput = true ∧ ¬Arch.Fits p.address p.data.length ∧
    e = .addressWrap p.address.toNat p.data.length

namespace Runner

variable {w w' : Rig A} {h h' : Held A} {log : Transcript A}

/-! ## The parts of a start -/

/-- Registers are saved, each of them once. -/
theorem wp_saveRegs_once (regs : List A.Reg) :
    ∀ {h : Held A} {done : List A.Reg}, SavedOnce (· ∈ done) w.regs h.runner.saved →
      (obliging A).wp (fun _ => True) ((saveRegs regs).run.run h) (fun r w' =>
        w' = w ∧ r.1 = .ok () ∧ ∃ saved, r.2 = { h with runner.saved := saved } ∧
          SavedOnce (· ∈ done ++ regs) w.regs saved) w := by
  induction regs with
  | nil =>
      intro h done hs
      refine ⟨rfl, rfl, h.runner.saved, rfl, ?_⟩
      rwa [List.append_nil]
  | cons reg rest ih =>
      intro h done hs
      rw [List.append_cons done reg rest]
      refine wp_get ?_
      split
      · next hnew =>
        rw [Bool.not_eq_true'] at hnew
        have hnew : reg ∉ h.runner.saved.map (·.1) := by
          rw [← any_saved, hnew]
          exact Bool.false_ne_true
        refine wp_granted ?_
        rintro (e | v) w' hgranted heffect
        · exact nomatch hgranted
        · obtain ⟨rfl, rfl⟩ := heffect
          exact ih (h := { h with runner.saved := _ }) (hs.append hnew)
      · next hold =>
        -- an alias: the value from before the start is there already
        have hold : reg ∈ h.runner.saved.map (·.1) := by simpa using hold
        exact ih (hs.again hold)

/-- A call succeeds. -/
theorem wp_call_granted {c : Call A} {Q : Except Error c.Answer → Rig A → Prop}
    (hn : ∀ a w', w.effect (.call c) (.ok a) w' → Q (.ok a) w') :
    (obliging A).wp (fun _ => True) (call c : Link A c.Answer).run Q w := by
  refine wp_granted ?_
  rintro (e | a) w' hgranted heffect
  · exact nomatch hgranted
  · exact hn a w' heffect

/-- A block is written, unless it runs past the end of the address space. -/
theorem wp_writeBuffer_hand (p : MemParam A.width) :
    (obliging A).wp (fun _ => True) (writeBuffer p.address p.data).run (fun r w' =>
      match r with
      | .ok _ => Arch.Fits p.address p.data.length ∧
          w' = { w with memory :=
            if p.data.isEmpty then w.memory else w.memory.store p.address.toNat p.data }
      | .error e => ¬Arch.Fits p.address p.data.length ∧
          e = .addressWrap p.address.toNat p.data.length) w := by
  rw [writeBuffer]
  refine wp_andThen (wp_noted ?_)
  show (obliging A).wp _ (ExceptT.run (if p.data = [] then (pure () : Link A Unit) else _)) _ _
  split
  · next hempty =>
    rw [hempty]
    exact ⟨Or.inl rfl, rfl⟩
  · next hne =>
    refine wp_andThen ?_
    rw [checkFits]
    split
    · next hfits =>
      refine wp_call_granted ?_
      rintro _ _ rfl
      refine ⟨hfits, ?_⟩
      rw [if_neg (by simpa using hne)]
    · next hwraps => exact wp_noted ⟨hwraps, rfl⟩

/-- Blocks are written one after the other, until one runs past the end of the address space. -/
theorem wp_writeMem_hand (params : List (MemParam A.width)) :
    ∀ {w : Rig A}, (obliging A).wp (fun _ => True) (writeMem params).run (fun r w' =>
      match r with
      | .ok _ => (∀ p ∈ params, p.direction.isInput = true → Arch.Fits p.address p.data.length) ∧
          w' = { w with memory := handMemory params w.memory }
      | .error e => ∃ p ∈ params, p.direction.isInput = true ∧
          ¬Arch.Fits p.address p.data.length ∧ e = .addressWrap p.address.toNat p.data.length)
      w := by
  -- on the blocks: the first one that wraps around ends it
  induction params with
  | nil => exact ⟨nofun, rfl⟩
  | cons p rest ih =>
      intro w
      rw [writeMem]
      cases hin : p.direction.isInput with
      | true =>
          refine wp_andThen (wp_mono (wp_writeBuffer_hand p) ?_)
          rintro (e | _) w₁ hp
          · obtain ⟨hwraps, rfl⟩ := hp
            exact ⟨p, List.mem_cons_self, hin, hwraps, rfl⟩
          · obtain ⟨hfits, rfl⟩ := hp
            refine wp_mono ih ?_
            rintro (e | _) w' hrest
            · obtain ⟨q, hq, hwraps⟩ := hrest
              exact ⟨q, List.mem_cons_of_mem p hq, hwraps⟩
            · obtain ⟨hall, rfl⟩ := hrest
              refine ⟨List.forall_mem_cons.mpr ⟨fun _ => hfits, hall⟩, ?_⟩
              rw [handMemory_cons, if_pos hin]
      | false =>
          refine wp_mono ih ?_
          rintro (e | _) w' hrest
          · obtain ⟨q, hq, hwraps⟩ := hrest
            exact ⟨q, List.mem_cons_of_mem p hq, hwraps⟩
          · obtain ⟨hall, rfl⟩ := hrest
            refine ⟨List.forall_mem_cons.mpr ⟨fun h => ?_, hall⟩, ?_⟩
            · rw [hin] at h
              exact absurd h Bool.false_ne_true
            · rw [handMemory_cons, if_neg (by rw [hin]; exact Bool.false_ne_true)]

/-- Register parameters are written one after the other. -/
theorem wp_writeRegs_hand (params : List (RegParam A.width)) :
    ∀ {regs : List A.Reg} {w : Rig A}, resolve A params = .ok regs →
      (obliging A).wp (fun _ => True) (writeRegs (params.zip regs)).run (fun r w' =>
        r = .ok () ∧ w' = { w with regs := handRegs (inputRegs A params) w.regs }) w := by
  -- on the registers, each of which the target accepts
  induction params with
  | nil =>
      intro regs w _
      exact ⟨rfl, rfl⟩
  | cons p rest ih =>
      intro regs w hregs
      obtain ⟨reg, regs', hreg, hrest, rfl⟩ := resolve_cons hregs
      rw [List.zip_cons_cons, writeRegs]
      cases hin : p.direction.isInput with
      | true =>
          refine wp_andThen (wp_call_granted ?_)
          rintro _ _ rfl
          refine wp_mono (ih hrest) ?_
          rintro _ w' ⟨rfl, rfl⟩
          refine ⟨rfl, ?_⟩
          rw [inputRegs_cons, if_pos hin, hreg]
          rfl
      | false =>
          refine wp_mono (ih hrest) ?_
          rintro _ w' ⟨rfl, rfl⟩
          refine ⟨rfl, ?_⟩
          rw [inputRegs_cons, if_neg (by rw [hin]; exact Bool.false_ne_true)]

/-- So is the context. -/
theorem wp_writeContext_hand (entries : List (A.Reg × A.Addr)) :
    ∀ {w : Rig A}, (obliging A).wp (fun _ => True) (writeContext entries).run (fun r w' =>
      r = .ok () ∧ w' = { w with regs := handRegs entries w.regs }) w := by
  induction entries with
  | nil => exact ⟨rfl, rfl⟩
  | cons entry rest ih =>
      intro w
      refine wp_andThen (wp_call_granted ?_)
      rintro _ _ rfl
      refine wp_mono ih ?_
      rintro _ w' ⟨rfl, rfl⟩
      exact ⟨rfl, rfl⟩

/-- The breakpoint is set at the exit point, if there is one. -/
theorem wp_arm_hand (h : Held A) :
    (obliging A).wp (fun _ => True) ((arm (A := A)).run.run h) (fun r w' =>
      r.1 = .ok () ∧
      r.2 = (if h.runner.image.exit = 0 then h
        else { h with runner.breakpoint := some h.runner.image.exit }) ∧
      w' = { w with breakpoints :=
        if h.runner.image.exit = 0 then w.breakpoints
        else (h.runner.image.exit, h.runner.exitKind) ::ₘ w.breakpoints }) w := by
  refine wp_get ?_
  dsimp only
  split
  · refine wp_granted ?_
    rintro (_ | _) w hgranted heffect
    · exact nomatch hgranted
    · obtain rfl := heffect
      refine wp_granted ?_
      rintro (e | _ | _) w' hgranted heffect
      · exact nomatch hgranted
      · exact nomatch hgranted
      · obtain rfl := heffect
        exact ⟨rfl, rfl, rfl⟩
  · next hexit =>
    have hexit : h.runner.image.exit = 0 := Decidable.of_not_not hexit
    rw [if_pos hexit, if_pos hexit]
    exact ⟨rfl, rfl, rfl⟩

/-- Only registers that are named resolve. -/
theorem named_of_resolve {params : List (RegParam A.width)} {regs : List A.Reg} {reg : A.Reg}
    (hr : resolve A params = .ok regs) (h : reg ∈ regs) :
    ∃ p ∈ params, A.reg? p.name = some reg := by
  induction params generalizing regs with
  | nil =>
      cases hr
      exact absurd h List.not_mem_nil
  | cons p rest ih =>
      obtain ⟨reg', regs', hreg', hregs', rfl⟩ := resolve_cons hr
      rcases List.mem_cons.mp h with rfl | h
      · exact ⟨p, List.mem_cons_self, hreg'⟩
      · obtain ⟨q, hq, hname⟩ := ih hregs' h
        exact ⟨q, List.mem_cons_of_mem p hq, hname⟩

/-- The registers that a run touches are those that the image says. -/
theorem mem_touched_iff {r : Runner A} (hr : resolve A r.image.regs = .ok r.regs) {reg : A.Reg} :
    reg ∈ r.touched ↔ r.image.Touches reg := by
  rw [touched, List.cons_append, List.mem_cons, List.mem_append, Image.Touches]
  refine or_congr Iff.rfl (or_congr ?_ Iff.rfl)
  exact ⟨named_of_resolve hr, mem_of_resolve hr⟩

/-- What is left in the runner once everything is in place. -/
def loaded (r : Runner A) (saved : List (A.Reg × A.Addr)) : Runner A :=
  { r with saved, breakpoint := if r.image.exit = 0 then none else some r.image.exit }

/-- EVERYTHING IS IN PLACE, unless a block runs past the end of the address space. -/
theorem wp_load_hand (hb : h.runner.Bare)
    (hregs : resolve A h.runner.image.regs = .ok h.runner.regs) :
    (obliging A).wp (fun _ => True) ((load (A := A)).run.run h) (fun r w' =>
      match r.1 with
      | .ok _ =>
          (∀ p ∈ h.runner.image.mem, p.direction.isInput = true →
            Arch.Fits p.address p.data.length) ∧
          HandedOver h.runner.image w w' ∧
          ∃ saved, r.2 = { h with runner := h.runner.loaded saved } ∧
            SavedOnce h.runner.image.Touches w.regs saved
      | .error e => h.runner.image.Wraps e) w := by
  -- the runner was bare, so nothing was saved before
  have hnone : SavedOnce (· ∈ ([] : List A.Reg)) w.regs [] :=
    ⟨List.nodup_nil, fun _ => Iff.rfl, nofun⟩
  refine wp_modify (wp_get (wp_seq (wp_mono (wp_saveRegs_once h.runner.touched hnone) ?_)))
  rintro ⟨_, _⟩ w ⟨rfl, rfl, saved, rfl, hsaved⟩
  refine wp_seq (wp_lift (wp_mono (wp_writeMem_hand h.runner.image.mem) ?_))
  rintro (e | _) w₁ hmem
  · exact hmem
  obtain ⟨hfits, rfl⟩ := hmem
  refine wp_seq (wp_lift (wp_mono (wp_writeRegs_hand h.runner.image.regs hregs) ?_))
  rintro _ w₂ ⟨rfl, rfl⟩
  refine wp_seq (wp_lift (wp_mono (wp_writeContext_hand (A.context h.runner.image.info)) ?_))
  rintro _ w₃ ⟨rfl, rfl⟩
  refine wp_mono (wp_arm_hand _) ?_
  rintro ⟨_, _⟩ w₄ ⟨rfl, rfl, rfl⟩
  refine ⟨hfits, ⟨fun reg => ?_, rfl, rfl⟩, saved, ?_, hsaved.once, fun reg => ?_, hsaved.values⟩
  · rw [← handRegs_apply, ← handRegs_apply]
  · rw [loaded]
    dsimp only
    by_cases hexit : h.runner.image.exit = 0
    · -- it was bare before, so nothing is armed now
      rw [if_pos hexit, if_pos hexit, ← hb.breakpoint]
    · rw [if_neg hexit, if_neg hexit]
  · rw [hsaved.covers, List.nil_append]
    exact mem_touched_iff hregs

/-! ## The start -/

/-- The core was let go once, at the very end: this is what was asked before, what the core found,
    and what was saved by then. -/
structure LetGo (image : A.Img) (before : Rig A) (log asked : Transcript A) (found : Rig A)
    (saved : List (A.Reg × A.Addr)) : Prop where
  last : log = asked ++ [⟨.call (.resume (some image.entry) .all), .ok ()⟩]
  rests : asked.Rests
  plays : (obliging A).Plays before asked found
  handed : HandedOver image before found
  saved : SavedOnce image.Touches before.regs saved

/-- What comes after a failure does not let the core go, and reports that failure. -/
theorem cleanUp_restful (e : Error) (h : Held A) : (((do
    let _ ← outcome disarm
    let _ ← outcome restoreContext
    throw e : RunM A Unit)).run.run h).Within Op.Restful fun r => r.1 = .error e := by
  have hsteady : ∀ op : Op A, op.Steady → op.Restful := fun _ => Op.Steady.restful
  refine .seq (.outcome ((disarm_steady.weaken hsteady h).mono ?_))
  rintro ⟨_, h₁⟩ -
  refine .seq (.outcome ((restoreContext_steady.weaken hsteady h₁).mono ?_))
  rintro ⟨_, h₂⟩ -
  rfl

/-- The core is found halted. -/
theorem wp_requireHalted_hand :
    (obliging A).wp (fun _ => True) (requireHalted (A := A)).run
      (fun r w' => r = .ok () ∧ w' = w) w := by
  refine wp_granted ?_
  rintro (e | state) w' hgranted heffect
  · exact nomatch hgranted
  · obtain rfl := heffect
    cases state with
    | halted => exact ⟨rfl, rfl⟩
    | _ => exact nomatch hgranted

/-- Letting the core go comes after everything else. -/
theorem path_launch {r : Except Error Unit × Held A} (hpath : (launch.run.run h).Path log r) :
    (∃ e, r.1 = .error e ∧ (load.run.run h).Path log r) ∨
      ∃ asked h' answer, (load.run.run h).Path asked (.ok (), h') ∧
        r = (answer.mapError .ofTarget, h') ∧
        log = asked ++ [⟨.note (.starting h'.runner.image.entry.toNat
            h'.runner.image.exit.toNat), ()⟩] ++
          [⟨.call (.resume (some h'.runner.image.entry) .all), answer⟩] := by
  rcases path_seq hpath with ⟨l₁, l₂, _, h', rfl, hload, hrest⟩ | ⟨e, h', rfl, hload⟩
  · obtain ⟨_, more, rfl, hmore⟩ := path_ask.mp (path_get.mp hrest)
    obtain ⟨answer, end', rfl, hend⟩ := path_ask.mp hmore
    refine Or.inr ⟨l₁, h', answer, hload, ?_⟩
    rw [List.append_assoc]
    cases answer with
    | error e =>
        obtain ⟨rfl, rfl⟩ := path_done.mp hend
        exact ⟨rfl, rfl⟩
    | ok _ =>
        obtain ⟨rfl, rfl⟩ := path_done.mp hend
        exact ⟨rfl, rfl⟩
  · exact Or.inl ⟨e, rfl, hload⟩

/-! ## Putting back what was saved -/

/-- Saved values are written, in the order in which they are listed. -/
theorem wp_writeEach_hand {before : A.Reg → A.Addr} (saved : List (A.Reg × A.Addr)) :
    ∀ {w : Rig A}, (∀ entry ∈ saved, entry.2 = before entry.1) →
      (obliging A).wp (fun _ => True) (writeEach saved) (fun r w' => r = .ok () ∧
        w' = { w with regs := putBack saved before w.regs }) w := by
  induction saved with
  | nil =>
      intro w _
      exact ⟨rfl, rfl⟩
  | cons entry rest ih =>
      intro w hv
      obtain ⟨hentry, hrest⟩ := List.forall_mem_cons.mp hv
      obtain ⟨reg, value⟩ := entry
      obtain rfl : value = before reg := hentry
      refine wp_granted ?_
      rintro (e | _) w₁ hgranted heffect
      · exact nomatch hgranted
      · obtain rfl := heffect
        refine wp_mono (ih hrest) ?_
        rintro _ w' ⟨rfl, rfl⟩
        refine ⟨rfl, ?_⟩
        congr 1
        funext reg'
        -- a later entry for this register would hold the same value
        by_cases hmem : reg' ∈ rest.map (·.1)
        · simp [putBack, hmem]
        · by_cases heq : reg' = reg
          · simp [putBack, heq]
          · simp [putBack, hmem, heq, Function.update_of_ne]

/-- THE ORDER DOES NOT MATTER: whichever is put back first, the registers that were saved hold in
    the end what they held before, and nothing else changes. -/
theorem restores_any_order {before : A.Reg → A.Addr} {saved order : List (A.Reg × A.Addr)}
    (hv : ∀ entry ∈ saved, entry.2 = before entry.1) (hperm : order.Perm saved)
    {r : Except Error Unit} (hpath : (writeEach order).Path log r)
    (hplays : (obliging A).Plays w log w') :
    r = .ok () ∧ w' = { w with regs := putBack saved before w.regs } := by
  have hsame : putBack order before w.regs = putBack saved before w.regs := by
    funext reg
    simp only [putBack, (hperm.map (·.1)).mem_iff]
  rw [← hsame]
  exact path_obliging (wp_writeEach_hand order fun e he => hv e (hperm.mem_iff.mp he)) hpath hplays

/-! ## The whole start -/

/-- EVERY PATH OF A START on an obliging target. -/
theorem path_start_hand {r : Except Error Unit × Held A} (hbusy : h.busy = false)
    (hidle : h.runner.state.isActive = false) (hb : h.runner.Bare)
    (hregs : resolve A h.runner.image.regs = .ok h.runner.regs)
    (hpath : (start.run.run h).Path log r) (hplays : (obliging A).Plays w log w') :
    (∃ e, r.1 = .error e ∧ log.Rests ∧ h.runner.image.Wraps e) ∨
      (∀ p ∈ h.runner.image.mem, p.direction.isInput = true →
        Arch.Fits p.address p.data.length) ∧
      ∃ asked found saved, LetGo h.runner.image w log asked found saved ∧
        r = (.ok (), { runner := { h.runner.loaded saved with state := .started },
                       busy := true }) := by
  replace hpath := path_get.mp hpath
  rw [hbusy, hidle] at hpath
  rcases path_seq hpath with ⟨l₁, l₂, _, h', rfl, hpoll, hrest⟩ | ⟨e, h', rfl, hpoll⟩
  · obtain ⟨_, heq, hlook⟩ := path_lift.mp hpoll
    cases heq
    obtain ⟨w₁, hplays₁, hplays₂⟩ := plays_append.mp hplays
    obtain ⟨-, rfl⟩ := path_obliging wp_requireHalted_hand hlook hplays₁
    have hrests₁ : l₁.Rests := (requireHalted_restful.path hlook).1
    obtain ⟨l₃, l₄, x, h₁, rfl, hlaunch, hlast⟩ := path_outcome hrest
    obtain ⟨w₂, hplays₃, hplays₄⟩ := plays_append.mp hplays₂
    rcases path_launch hlaunch with ⟨e, he, hload⟩ | ⟨asked, h₂, answer, hload, heq, rfl⟩
    · -- a block wraps: what was done is undone, and the core stays where it is
      obtain rfl : x = .error e := he
      obtain ⟨hrests₄, hr⟩ := (cleanUp_restful e h₁).path hlast
      have hrests₃ : l₃.Rests := fun event hm => ((load_steady h).path hload).1 event hm |>.restful
      have hrests₂ : Rests (l₃ ++ l₄) := List.forall_mem_append.mpr ⟨hrests₃, hrests₄⟩
      exact Or.inl ⟨e, hr, List.forall_mem_append.mpr ⟨hrests₁, hrests₂⟩,
        path_obliging (wp_load_hand hb hregs) hload hplays₃⟩
    · -- everything is in place, and the target does not refuse to let the core go
      obtain ⟨w₃, hasked, hresume⟩ := plays_append.mp hplays₃
      obtain ⟨w₄, hplays₅, hnoted⟩ := plays_append.mp hasked
      obtain rfl := plays_noted hnoted
      obtain ⟨_, _, _, ⟨hgranted, -⟩, -⟩ := hresume.first
      cases answer with
      | error e => exact nomatch hgranted
      | ok _ =>
          obtain ⟨hfits, hhanded, saved, rfl, hsaved⟩ :=
            path_obliging (wp_load_hand hb hregs) hload hplays₅
          cases heq
          obtain ⟨rfl, rfl⟩ := path_done.mp hlast
          have hrests₅ : asked.Rests := fun event hm =>
            ((load_steady h).path hload).1 event hm |>.restful
          refine Or.inr ⟨hfits, l₁ ++ (asked ++ [⟨.note (.starting h.runner.image.entry.toNat
            h.runner.image.exit.toNat), ()⟩]), w₃, saved, ⟨?_, ?_, ?_, hhanded, hsaved⟩, rfl⟩
          · simp only [List.append_nil, List.append_assoc]
            rfl
          · refine List.forall_mem_append.mpr ⟨hrests₁, List.forall_mem_append.mpr ⟨hrests₅, ?_⟩⟩
            exact List.forall_mem_singleton.mpr trivial
          · exact plays_append.mpr ⟨w₁, hplays₁, hasked⟩
  · obtain ⟨_, heq, hlook⟩ := path_lift.mp hpoll
    cases heq
    exact nomatch (path_obliging wp_requireHalted_hand hlook hplays).1

end Runner

namespace Bay

variable {bay bay' : Bay A} {w w' : Rig A} {log : Transcript A} {error : Option Error}

/-- The runners of every bay have the registers that their images name. -/
theorem Reachable.resolved (hr : bay.Reachable) :
    ∀ r ∈ bay.runners, Runner.resolve A r.image.regs = .ok r.regs := by
  induction hr with
  | empty => exact nofun
  | accept pollInterval _ hacc ih =>
      obtain ⟨regs, hregs, -, rfl⟩ := Runner.eq_of_ofImage? hacc
      intro r hr
      rcases List.mem_append.mp hr with hr | hr
      · exact ih r hr
      · obtain rfl := List.mem_singleton.mp hr
        exact hregs
  | drop i _ _ ih => exact fun r hr => ih r (List.mem_of_mem_eraseIdx hr)
  | @perform bay bay' i task error log _ hreach ih =>
      have hheld := ih _ (List.getElem_mem i.isLt)
      have hends : (bay.perform i task).Ends fun r =>
          ∀ r' ∈ r.2.runners, Runner.resolve A r'.image.regs = .ok r'.regs := by
        refine Within.bind ((Task.perform_origin (bay.held i) task).mono ?_)
        rintro ⟨error, h'⟩ horigin r hr
        rcases List.mem_or_eq_of_mem_set hr with hr | rfl
        · exact ih r hr
        · -- no task touches the names of an image's registers
          have hruns : (bay.held i).runner.Runs (bay.held i).runner.image := ⟨rfl, hheld⟩
          exact (hruns.of_origin horigin).resolve_regs
      exact hends.of_reaches hreach

/-- What a start says on an obliging target, and what it leaves of the bay. -/
theorem path_start_hand (i : Fin bay.runners.length) (hbusy : bay.busy = false)
    (hidle : (bay.held i).runner.state.isActive = false) (hb : (bay.held i).runner.Bare)
    (hregs : Runner.resolve A (bay.held i).runner.image.regs = .ok (bay.held i).runner.regs)
    (hpath : (bay.perform i .start).Path log (error, bay'))
    (hplays : (obliging A).Plays w log w') :
    (∃ e, error = some e ∧ log.Rests ∧ (bay.held i).runner.image.Wraps e) ∨
      error = none ∧ (∀ p ∈ (bay.held i).runner.image.mem, p.direction.isInput = true →
        Arch.Fits p.address p.data.length) ∧
      ∃ asked found saved, Runner.LetGo (bay.held i).runner.image w log asked found saved ∧
        bay' = bay.put i { runner := { (bay.held i).runner.loaded saved with state := .started },
                           busy := true } := by
  obtain ⟨l₁, none₁, ⟨error, h'⟩, rfl, hperform, hend⟩ := path_bind.mp hpath
  obtain ⟨rfl, heq⟩ := path_done.mp hend
  cases heq
  obtain ⟨l₁, none₂, ⟨r, h'⟩, rfl, hstart, hend⟩ := path_bind.mp hperform
  obtain ⟨rfl, heq⟩ := path_done.mp hend
  cases heq
  rw [List.append_nil, List.append_nil] at hplays ⊢
  rcases Runner.path_start_hand (h := bay.held i) hbusy hidle hb hregs hstart hplays with
    ⟨e, he, hfailed⟩ | ⟨hfits, asked, found, saved, hgone, heq⟩
  · obtain rfl : r = .error e := he
    exact Or.inl ⟨e, rfl, hfailed⟩
  · cases heq
    exact Or.inr ⟨rfl, hfits, asked, found, saved, hgone, rfl⟩

/-- WHAT A START HANDS TO THE CORE.  The target is halted and free, its calls succeed, and the
    runner is any that came about.  A start comes to an end.  Unless a block runs past the end of
    the address space, the core is let go once, at the entry point, and finds what `HandedOver`
    says; what is saved then is `SavedOnce`, and may be put back in any order. -/
theorem Reachable.handover (hr : bay.Reachable) (i : Fin bay.runners.length)
    (hbusy : bay.busy = false) (w : Rig A) :
    (∃ log x w', (bay.perform i .start).Path log x ∧ (obliging A).Plays w log w') ∧
    ∀ log error bay' w', (bay.perform i .start).Path log (error, bay') →
      (obliging A).Plays w log w' →
      (error = none ↔ ∀ p ∈ (bay.held i).runner.image.mem, p.direction.isInput = true →
        Arch.Fits p.address p.data.length) ∧
      (∀ e, error = some e → log.Rests ∧ (bay.held i).runner.image.Wraps e) ∧
      (error = none → ∃ asked found saved,
        Runner.LetGo (bay.held i).runner.image w log asked found saved ∧
        bay' = bay.put i { runner := { (bay.held i).runner.loaded saved with state := .started },
                           busy := true } ∧
        ∀ order, order.Perm saved → ∀ w₁ log₁ r w₂, (Runner.writeEach order).Path log₁ r →
          (obliging A).Plays w₁ log₁ w₂ →
            r = .ok () ∧ w₂ = { w₁ with regs := putBack saved w.regs w₁.regs }) := by
  refine ⟨path_of_answers obliging_answers _ w, fun log error bay' w' hpath hplays => ?_⟩
  have hidle := inactive_of_counted hr.counted hbusy (List.getElem_mem i.isLt)
  have hb := hr.tidy _ (List.getElem_mem i.isLt) hidle
  have hregs := hr.resolved _ (List.getElem_mem i.isLt)
  rcases path_start_hand i hbusy hidle hb hregs hpath hplays with
    ⟨e, rfl, hrests, hwraps⟩ | ⟨rfl, hfits, asked, found, saved, hgone, hbay⟩
  · refine ⟨⟨nofun, fun hfits => ?_⟩, ?_, nofun⟩
    · obtain ⟨p, hp, hin, hnot, -⟩ := hwraps
      exact absurd (hfits p hp hin) hnot
    · rintro _ ⟨⟩
      exact ⟨hrests, hwraps⟩
  · refine ⟨⟨fun _ => hfits, fun _ => rfl⟩, nofun, fun _ => ⟨asked, found, saved, hgone, hbay, ?_⟩⟩
    exact fun order hperm w₁ log₁ r w₂ => Runner.restores_any_order hgone.saved.values hperm

/-- An algorithm of a Cortex-M core.  Two of its parameters name the same register, and a third one
    a register that the core has its own idea of; two blocks overlap, and one is empty. -/
def sampleAliased : Image 32 CortexM.Mode where
  entry := 0x1000
  exit := 0x1010
  mem := [.input 0x2000 [1, 2], .input 0x2000 [],
    { address := 0x2001, data := [9], direction := .both }]
  regs := [{ name := "r0", value := 1, direction := .input },
    { name := "r0", value := 2, direction := .both },
    { name := "xpsr", value := 0, direction := .input }]
  info := .thread

/-- A bay with a runner of it. -/
def sampleAliasedBay : Bay cortexM where
  runners := [{ image := sampleAliased, regs := [.gpr 0, .gpr 0, .xpsr] }]

/-- A halted core. -/
def sampleHalted : Rig cortexM where
  regs := fun _ => 0x40
  memory := fun _ => 0
  breakpoints := 0

/-- The second of the two parameters counts, and the Thumb bit is set all the same. -/
theorem Reachable.handover_aliased : ∃ log bay' w' asked found saved,
    (sampleAliasedBay.perform (0 : Fin 1) .start).Path log (none, bay') ∧
    (obliging cortexM).Plays sampleHalted log w' ∧
    Runner.LetGo sampleAliased sampleHalted log asked found saved ∧
    found.regs (.gpr 0) = 2 ∧ found.regs .xpsr = CortexM.thumbBit ∧ found.memory 0x2001 = 9 := by
  have haccepted : Runner.ofImage? sampleAliased =
      .ok ({ image := sampleAliased, regs := [.gpr 0, .gpr 0, .xpsr] } : Runner cortexM) := rfl
  obtain ⟨⟨log, ⟨error, bay'⟩, w', hpath, hplays⟩, hevery⟩ :=
    Reachable.handover (.accept 1 .empty haccepted : sampleAliasedBay.Reachable) (0 : Fin 1) rfl
      sampleHalted
  obtain ⟨hiff, -, hgone⟩ := hevery log error bay' w' hpath hplays
  obtain rfl : error = none := hiff.mpr (by decide)
  obtain ⟨asked, found, saved, hgo, -, -⟩ := hgone rfl
  refine ⟨log, bay', w', asked, found, saved, hpath, hplays, hgo, ?_, ?_, ?_⟩
  · exact (hgo.handed.regs _).trans rfl
  · exact (hgo.handed.regs _).trans rfl
  · exact (congrFun hgo.handed.memory _).trans rfl

end Bay

end DebugLink
