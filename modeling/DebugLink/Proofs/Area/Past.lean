import DebugLink.Proofs.Area.Halving
import DebugLink.Proofs.Area.Stock

/-!
# As many slots as there ever were areas

Slots are never taken away, so how many there are is a matter of the PAST: as many as there were
areas at once, at some time.  Between two requests that time may not be seen.  An attempt that cuts
a block and then cannot save what is there joins the parts again, and the slot stays.

* An attempt is made in three stages: `prepare`, `cutFirst`, `secure`.  `allocTry_stages` says that
  it IS these three.  The areas are looked at after each of them (`Staged`), so that what there was
  for a moment is on record.
* `Passage` is what a stage, an attempt, or a request does to the table: nothing that is seen on the
  way breaks it, and it has grown to the most that was seen.  One is followed by the next
  (`Passage.trans`).
* `Past` puts requests in a row.  The induction over it (`Past.sound`) needs to know of each moment
  only that the table was in order.
-/

namespace DebugLink.Areas

open Dialogue Environment

/-! ## Stages -/

section Stages

variable {A : Arch}

/-- Rounds a request up, and opens the window if it is closed. -/
def prepare (size : Nat) : AreaM A Nat := do
  match roundUp? size with
  | none => throw (.resourceNotAvailable size (← get).available)
  | some n =>
    if !(← get).opened then
      openWindow n
    return n

/-- Cuts the first block that is large enough. -/
def cutFirst (n : Nat) : AreaM A Nat := do
  match (← get).firstFit? n with
  | none => throw (.resourceNotAvailable n (← get).available)
  | some i =>
    modify (·.split i n)
    return i

/-- Saves the contents of the block in slot `i`, if they are to be put back, and hands it out. -/
def secure (i n : Nat) : AreaM A (Area A.width) := do
  if (← get).config.backup then
    saveBackup i
  handOver i n

/-- Serving is to cut a block first, and then to secure it. -/
theorem serve_stages (n : Nat) : serve (A := A) n = cutFirst n >>= fun i => secure i n := by
  rw [serve, cutFirst, LawfulMonad.bind_assoc]
  refine bind_congr fun s => ?_
  cases s.firstFit? n with
  | none => rfl
  | some i => rfl

/-- AN ATTEMPT IS THESE THREE, one after the other. -/
theorem allocTry_stages (size : Nat) : allocTry (A := A) size =
    prepare size >>= fun n => cutFirst n >>= fun i => secure i n := by
  simp only [← serve_stages]
  rw [allocTry_eq, prepare]
  cases roundUp? size with
  | none => rfl
  | some n =>
      show (get >>= fun s => _) = ((get >>= fun s => _) >>= _)
      rw [LawfulMonad.bind_assoc]
      refine bind_congr fun s => ?_
      cases s.opened with
      | true => rfl
      | false =>
          show (openWindow n >>= fun _ => serve n) = (openWindow n >>= fun _ => pure n) >>= serve
          rw [LawfulMonad.bind_assoc]
          rfl

/-- On this path an attempt to get `size` bytes ends like that.  These are the areas after each of
    its stages, the last one first. -/
inductive Staged (s : Areas A.width) (size : Nat) :
    Transcript A → Except Error (Area A.width) × Areas A.width → List (Areas A.width) → Prop
  | unprepared {l : Transcript A} {e : Error} {t : Areas A.width} :
      ((prepare size).run.run s).Path l (.error e, t) → Staged s size l (.error e, t) [t]
  | uncut {l₁ l₂ : Transcript A} {n : Nat} {e : Error} {t u : Areas A.width} :
      ((prepare size).run.run s).Path l₁ (.ok n, t) →
      ((cutFirst n).run.run t).Path l₂ (.error e, u) →
      Staged s size (l₁ ++ l₂) (.error e, u) [u, t]
  /-- Whether or not what is there could be saved. -/
  | cut {l₁ l₂ l₃ : Transcript A} {n i : Nat} {t u : Areas A.width}
      {r : Except Error (Area A.width) × Areas A.width} :
      ((prepare size).run.run s).Path l₁ (.ok n, t) →
      ((cutFirst n).run.run t).Path l₂ (.ok i, u) →
      ((secure i n).run.run u).Path l₃ r → Staged s size (l₁ ++ (l₂ ++ l₃)) r [r.2, u, t]

/-- Every path of an attempt goes through its stages. -/
theorem staged_of_path {s : Areas A.width} {size : Nat} {log : Transcript A}
    {r : Except Error (Area A.width) × Areas A.width}
    (h : ((allocTry size).run.run s).Path log r) : ∃ seen, Staged s size log r seen := by
  rw [allocTry_stages] at h
  rcases path_seq h with ⟨l₁, l, n, t, rfl, h₁, h⟩ | ⟨e, t, rfl, h₁⟩
  · rcases path_seq h with ⟨l₂, l₃, i, u, rfl, h₂, h₃⟩ | ⟨e, u, rfl, h₂⟩
    · exact ⟨_, .cut h₁ h₂ h₃⟩
    · exact ⟨_, .uncut h₁ h₂⟩
  · exact ⟨_, .unprepared h₁⟩

end Stages

/-! ## What a stage does to the table -/

/-- The most areas that there were in any of these states. -/
def most {w : Nat} (states : List (Areas w)) : Nat :=
  (states.map (·.order.length)).foldr max 0

/-- The most areas of two stretches are those of the one or of the other. -/
theorem most_append {w : Nat} (states more : List (Areas w)) :
    most (states ++ more) = max (most states) (most more) := by
  induction states with
  | nil => exact (Nat.zero_max _).symm
  | cons s states ih =>
      show max s.order.length (most (states ++ more)) = max (max s.order.length (most states)) _
      rw [ih, Nat.max_assoc]

theorem most_singleton {w : Nat} (s : Areas w) : most [s] = s.order.length :=
  Nat.max_zero _

/-- From `s`, this was seen on the way to `t`: no broken table, and as many areas at the most as
    there are slots now, unless there were more slots already. -/
structure Passage {w : Nat} (s : Areas w) (seen : List (Areas w)) (t : Areas w) : Prop where
  sound : ∀ u ∈ seen, SlotTable u
  size : t.slots.size = max s.slots.size (most seen)

namespace Passage

variable {w : Nat} {s t u : Areas w} {seen more : List (Areas w)}

/-- One step, which may add a slot if all of them are in use. -/
theorem single (hs : Stocked t t.order) (hb : Backed t) (hgrows : Grows s t) :
    Passage s [t] t where
  sound := by
    rintro _ hmem
    obtain rfl := List.mem_singleton.mp hmem
    exact hs.table hb
  size := by
    rw [most_singleton]
    exact hgrows

/-- One after the other. -/
theorem trans (h : Passage s seen t) (h' : Passage t more u) : Passage s (more ++ seen) u where
  sound := fun v hv => (List.mem_append.mp hv).elim (h'.sound v) (h.sound v)
  size := by
    rw [h'.size, h.size, most_append, Nat.max_assoc, Nat.max_comm (most more)]

end Passage

section Attempts

variable {A : Arch} {s s' t : Areas A.width} {live : List (Area A.width)} {mmu : Bool}
  {size n i : Nat} {sizes : List Nat} {log l₁ l₂ : Transcript A} {seen : List (Areas A.width)}
  {r : Except Error (Area A.width) × Areas A.width} {request : AreaRequest A.width}

/-- All that is known between requests. -/
structure Sturdy (s : Areas A.width) (live : List (Area A.width)) (mmu : Bool) : Prop where
  settled : Settled s live mmu
  backed : Backed s
  stocked : Stocked s s.order

theorem Sturdy.slotted (h : Sturdy s live mmu) : Slotted s s.order :=
  h.settled.standing.slotted

/-- It is as it was, or the window has been opened. -/
theorem wp_prepare (h : Sturdy s live mmu) (size : Nat) :
    (anyTarget A).wp Anything ((prepare size).run.run s) (fun r mmu =>
      Sturdy r.2 live mmu ∧ Grows s r.2 ∧ ∀ n, r.1 = .ok n → 0 < n ∧ n % 4 = 0) mmu := by
  have hsame : Grows s s := h.stocked.grows rfl
  rw [prepare]
  cases hn : roundUp? size with
  | none => exact ⟨h, hsame, nofun⟩
  | some n =>
      have hsize : ∀ m, (.ok n : Except Error Nat) = .ok m → 0 < m ∧ m % 4 = 0 := by
        rintro _ ⟨⟩
        exact Grants.roundUp_spec hn
      refine wp_get ?_
      cases ho : s.opened with
      | true => exact ⟨h, hsame, hsize⟩
      | false =>
          -- whether or not it can be opened, and whatever is learned on the way
          have hstocked : (anyTarget A).wp Anything ((openWindow n).run.run s)
              (fun r _ => Stocked r.2 r.2.order ∧ Grows s r.2) mmu :=
            anyTarget_tame.wp_openWindow (R := fun t _ => Stocked t t.order ∧ Grows s t)
              (fun _ => trivial) n (wp_mmuOn
                (fun _ => ⟨⟨h.stocked, hsame⟩, fun _ base _ _ _ => h.stocked.openAt base⟩)
                fun _ => ⟨⟨h.stocked, hsame⟩, fun _ _ => nofun⟩)
          refine wp_seq (wp_mono
            (wp_and (backed_grants.opens ⟨h.settled, h.backed⟩ ho) hstocked) ?_)
          rintro ⟨e | _, t⟩ mmu' ⟨⟨hsettled, hbacked⟩, ht, hgrows⟩
          · exact ⟨⟨hsettled, hbacked, ht⟩, hgrows, nofun⟩
          · exact ⟨⟨hsettled, hbacked, ht⟩, hgrows, hsize⟩

/-- No block is large enough, or one is cut. -/
theorem path_cutFirst {c : Except Error Nat × Areas A.width}
    (h : ((cutFirst n).run.run s).Path log c) :
    (∃ e, c = (.error e, s)) ∨ ∃ i, s.firstFit? n = some i ∧ c = (.ok i, s.split i n) := by
  rw [cutFirst] at h
  replace h := path_get.mp h
  cases hi : s.firstFit? n with
  | none =>
      rw [hi] at h
      exact Or.inl ⟨_, (path_done.mp h).2.symm⟩
  | some i =>
      rw [hi] at h
      exact Or.inr ⟨i, rfl, (path_done.mp h).2.symm⟩

/-- However a request ends in an open window, the slots are those that there were when its block was
    cut. -/
theorem Served.stocked {calls : List (Exchange A)} (h : Served s n calls r)
    (hs : Stocked s s.order) (hi : s.firstFit? n = some i) :
    Stocked r.2 r.2.order ∧ r.2.slots.size = (s.split i n).slots.size := by
  obtain ⟨hmem, -, hle⟩ := firstFit_spec hi
  obtain ⟨before, after, hsits⟩ := Sits.of_mem hs.toSlotted hmem
  have hcutMem : i ∈ (s.split i n).order := (hsits.split hle).mem
  obtain ⟨hcut, -⟩ := hs.split hmem n
  -- with backups, what was saved is forgotten first
  obtain ⟨hbare, hbareMem, hbareSize⟩ := hcut.change_one hcutMem ({ · with backup := none })
  cases h with
  | full hnone =>
      rw [hi] at hnone
      cases hnone
  | bare hi' _ =>
      obtain rfl := Option.some.inj (hi.symm.trans hi')
      obtain ⟨hgiven, -, hsize⟩ := hcut.change_one hcutMem ({ · with free := false })
      exact ⟨hgiven, hsize⟩
  | saved bytes hi' _ =>
      obtain rfl := Option.some.inj (hi.symm.trans hi')
      obtain ⟨hsaved, hsavedMem, hsavedSize⟩ :=
        hbare.change_one hbareMem ({ · with backup := some bytes.val })
      obtain ⟨hgiven, -, hsize⟩ := hsaved.change_one hsavedMem ({ · with free := false })
      simp only [issued, carved, handOut]
      exact ⟨hgiven, hsize.trans (hsavedSize.trans hbareSize)⟩
  | unread e hi' _ =>
      obtain rfl := Option.some.inj (hi.symm.trans hi')
      obtain ⟨hmerged, hsize⟩ := hbare.merge
      simp only [carved]
      exact ⟨hmerged, hsize.trans hbareSize⟩

/-- The block that was cut is handed out, or joined with its neighbours again. -/
theorem path_secure (h : Sturdy s live mmu) (hpos : 0 < n) (hwords : n % 4 = 0)
    (hi : s.firstFit? n = some i) (hpath : ((secure i n).run.run (s.split i n)).Path log r) :
    ∃ mmu', Sturdy r.2 (granted live r.1) mmu' ∧ r.2.slots.size = (s.split i n).slots.size := by
  have hfirst : ((cutFirst n).run.run s).Path [] (.ok i, s.split i n) := by
    rw [cutFirst]
    refine path_get.mpr ?_
    rw [hi]
    exact .done _
  have hserve : ((serve n).run.run s).Path ([] ++ log) r := by
    rw [serve_stages]
    exact path_andThen hfirst hpath
  obtain ⟨mmu', hsettled, hbacked⟩ :=
    path_anyTarget (backed_grants.wp_serve hpos hwords ⟨h.settled, h.backed⟩) hserve
  obtain ⟨base, -, hopen, -⟩ := h.settled.opened (firstFit_opened hi)
  obtain ⟨hstocked, hsize⟩ := (path_serve hopen hpos hserve).stocked h.stocked hi
  exact ⟨mmu', ⟨hsettled, hbacked, hstocked⟩, hsize⟩

/-- An attempt leaves the table in order, whatever it comes to. -/
theorem Staged.passage (hstaged : Staged s size log r seen) (h : Sturdy s live mmu) :
    ∃ mmu', Sturdy r.2 (granted live r.1) mmu' ∧ Passage s seen r.2 := by
  -- by how far the attempt got: opened, cut, or secured
  cases hstaged with
  | unprepared h₁ =>
      obtain ⟨mmu', ht, hgrows, -⟩ := path_anyTarget (wp_prepare h size) h₁
      exact ⟨mmu', ht, .single ht.stocked ht.backed hgrows⟩
  | @uncut _ _ n _ _ _ h₁ h₂ =>
      obtain ⟨mmu', ht, hgrows, -⟩ := path_anyTarget (wp_prepare h size) h₁
      obtain ⟨_, heq⟩ | ⟨_, _, heq⟩ := path_cutFirst h₂
      · cases heq
        have hfirst := Passage.single ht.stocked ht.backed hgrows
        exact ⟨mmu', ht, hfirst.trans (.single ht.stocked ht.backed (ht.stocked.grows rfl))⟩
      · cases heq
  | @cut _ _ _ n i t u _ h₁ h₂ h₃ =>
      obtain ⟨mmu', ht, hgrows, hsize⟩ := path_anyTarget (wp_prepare h size) h₁
      obtain ⟨hpos, hwords⟩ := hsize n rfl
      obtain ⟨_, heq⟩ | ⟨i, hi, heq⟩ := path_cutFirst h₂
      · cases heq
      · cases heq
        obtain ⟨mmu'', hr, hsame⟩ := path_secure ht hpos hwords hi h₃
        obtain ⟨hmem, hf, hle⟩ := firstFit_spec hi
        obtain ⟨before, after, hsits⟩ := Sits.of_mem ht.slotted hmem
        obtain ⟨hcut, hcutGrows⟩ := ht.stocked.split hmem n
        have hfirst := Passage.single ht.stocked ht.backed hgrows
        have hsecond := Passage.single hcut (ht.backed.split hsits hf hle) hcutGrows
        have hthird := Passage.single hr.stocked hr.backed (hr.stocked.grows hsame)
        exact ⟨mmu'', hr, (hfirst.trans hsecond).trans hthird⟩

/-! ## What a request does to it -/

/-- One attempt for each of the sizes, in this order, and what was seen on the way.  All but the
    last are refused for lack of room, and each finds what the one before it left. -/
inductive Attempts :
    Areas A.width → List Nat → Transcript A → Areas A.width → List (Areas A.width) → Prop
  | last {s : Areas A.width} {size : Nat} {l : Transcript A}
      {r : Except Error (Area A.width) × Areas A.width} {seen : List (Areas A.width)} :
      Staged s size l r seen → Attempts s [size] l r.2 seen
  | refused {s t s' : Areas A.width} {size requested available : Nat} {sizes : List Nat}
      {l₁ l₂ : Transcript A} {seen more : List (Areas A.width)} :
      Staged s size l₁ (.error (.resourceNotAvailable requested available), t) seen →
      Attempts t sizes l₂ s' more → Attempts s (size :: sizes) (l₁ ++ l₂) s' (more ++ seen)

/-- One attempt after the other is one passage. -/
theorem Attempts.passage (h : Attempts s sizes log s' seen) (hs : Sturdy s live mmu) :
    Stocked s' s'.order ∧ Passage s seen s' := by
  induction h generalizing mmu with
  | last hstaged =>
      obtain ⟨_, hr, hpassage⟩ := hstaged.passage hs
      exact ⟨hr.stocked, hpassage⟩
  | refused hstaged _ ih =>
      obtain ⟨_, ht, hpassage⟩ := hstaged.passage hs
      obtain ⟨hstocked, hrest⟩ := ih ht
      exact ⟨hstocked, hpassage.trans hrest⟩

/-- Attempts that were refused, and one more. -/
theorem Refusals.attempts (h : Refusals s sizes l₁ t)
    (hlast : ((allocTry size).run.run t).Path l₂ r) :
    ∃ seen, Attempts s (sizes ++ [size]) (l₁ ++ l₂) r.2 seen := by
  induction h with
  | nil s =>
      obtain ⟨seen, hstaged⟩ := staged_of_path hlast
      exact ⟨seen, .last hstaged⟩
  | cons hfirst _ ih =>
      obtain ⟨more, hrest⟩ := ih hlast
      obtain ⟨seen, hstaged⟩ := staged_of_path hfirst
      rw [List.append_assoc]
      exact ⟨_, .refused hstaged hrest⟩

/-- The sizes that a request may try, one after the other. -/
inductive Tries {w : Nat} : AreaRequest w → List Nat → Prop
  | alloc (size : Nat) : Tries (.alloc size) [size]
  | allocTry (size : Nat) : Tries (.allocTry size) [size]
  | allocShrinking {preferred least k : Nat} :
      max least 1 ≤ max preferred (max least 1) / 2 ^ k →
      Tries (.allocShrinking preferred least) (halvings (max preferred (max least 1)) (k + 1))

/-- What is seen of the areas while a request is served, up to the end.  A request that makes no
    attempt is looked at when it is done. -/
inductive Passes (request : AreaRequest A.width) (s : Areas A.width) :
    Transcript A → Areas A.width → List (Areas A.width) → Prop
  | attempts {sizes : List Nat} {l more : Transcript A} {s' : Areas A.width}
      {seen : List (Areas A.width)} :
      Tries request sizes → Attempts s sizes l s' seen → Passes request s (l ++ more) s' seen
  | other {log : Transcript A} {s' : Areas A.width} :
      (∀ sizes, ¬Tries request sizes) → Passes request s log s' [s']

/-- A path of a computation whose result is handed on, if there is one. -/
theorem path_issue {x : AreaM A (Area A.width)} {issued : Option (Area A.width)}
    (h : ((do return (← x.run).toOption :
      StateT (Areas A.width) (Dialogue A) (Option (Area A.width))).run s).Path log (issued, s')) :
    ∃ r, (x.run.run s).Path log (r, s') := by
  obtain ⟨l₁, l₂, ⟨r, t⟩, rfl, h₁, h₂⟩ := path_bind.mp h
  obtain ⟨rfl, heq⟩ := path_done.mp h₂
  obtain ⟨-, rfl⟩ := Prod.mk.inj heq
  rw [List.append_nil]
  exact ⟨r, h₁⟩

/-- One attempt, and a report if there is no room. -/
theorem path_alloc (h : ((alloc size).run.run s).Path log r) :
    ∃ l₁ l₂ x, log = l₁ ++ l₂ ∧ ((allocTry size).run.run s).Path l₁ (x, r.2) := by
  rw [alloc] at h
  obtain ⟨l₁, l₂, x, t, rfl, h₁, h₂⟩ := path_outcome h
  suffices hsame : r.2 = t from ⟨l₁, l₂, x, rfl, hsame ▸ h₁⟩
  cases x with
  | ok area => rw [← (path_done.mp h₂).2]
  | error e =>
      cases e with
      | resourceNotAvailable requested available =>
          obtain ⟨_, _, -, hrest⟩ := path_ask.mp h₂
          rw [← (path_done.mp hrest).2]
      | _ => rw [← (path_done.mp h₂).2]

/-- Every run of a request goes through its stages. -/
theorem passes_of_path {issued : Option (Area A.width)}
    (h : (request.perform.run s).Path log (issued, s')) : ∃ seen, Passes request s log s' seen := by
  cases request with
  | alloc size =>
      obtain ⟨r, hr⟩ := path_issue h
      obtain ⟨l₁, l₂, x, rfl, hx⟩ := path_alloc hr
      obtain ⟨seen, hstaged⟩ := staged_of_path hx
      exact ⟨seen, .attempts (.alloc size) (.last hstaged)⟩
  | allocTry size =>
      obtain ⟨r, hr⟩ := path_issue h
      obtain ⟨seen, hstaged⟩ := staged_of_path hr
      rw [← List.append_nil log]
      exact ⟨seen, .attempts (.allocTry size) (.last hstaged)⟩
  | allocShrinking preferred least =>
      obtain ⟨r, hr⟩ := path_issue h
      obtain ⟨k, hsearch⟩ := (path_allocHalving (by omega) (Nat.le_max_right _ _)).mp hr
      have hle := hsearch.above
      -- the sizes tried before, and the one that was tried last
      have hsizes := halvings_snoc (max preferred (max least 1)) k
      cases hsearch with
      | answered _ hbefore hlast _ =>
          obtain ⟨seen, hattempts⟩ := hbefore.attempts hlast
          rw [← hsizes] at hattempts
          rw [← List.append_nil (_ ++ _)]
          exact ⟨seen, .attempts (.allocShrinking hle) hattempts⟩
      | exhausted _ _ hbefore hlast _ =>
          obtain ⟨seen, hattempts⟩ := hbefore.attempts hlast
          rw [← hsizes] at hattempts
          exact ⟨seen, .attempts (.allocShrinking hle) hattempts⟩
  | _ =>
      refine ⟨_, .other fun sizes htries => ?_⟩
      cases htries

/-- A request that makes no attempt neither adds a slot nor loses one. -/
theorem wp_perform_stocked (h : Settled s live mmu) (hs : Stocked s s.order)
    (request : AreaRequest A.width) (hnone : ∀ sizes, ¬Tries request sizes) :
    (anyTarget A).wp Anything (request.perform.run s)
      (fun r _ => Stocked r.2 r.2.order ∧ r.2.slots.size = s.slots.size) mmu := by
  have hr := settled_releases_with (A := A)
    (P := fun t => Stocked t t.order ∧ t.slots.size = s.slots.size)
    (fun _ hi _ ⟨ht, hsize⟩ => ⟨ht.release hi, (size_release _ _).trans hsize⟩)
    (fun _ ⟨ht, hsize⟩ => ⟨ht.merge.1, ht.merge.2.trans hsize⟩)
  cases request with
  | alloc size => exact absurd (.alloc size) (hnone _)
  | allocTry size => exact absurd (.allocTry size) (hnone _)
  -- these three try sizes, which is excluded
  | allocShrinking preferred least =>
      refine absurd (.allocShrinking (k := 0) ?_) (hnone _)
      rw [Nat.pow_zero, Nat.div_one]
      exact Nat.le_max_right _ _
  | free area =>
      exact wp_then (wp_mono ((hr true).wp_freeRestore ⟨h, hs, rfl⟩ area) fun _ _ hk => hk.2)
  | freeRestore area putBack =>
      exact wp_then (wp_mono ((hr putBack).wp_freeRestore ⟨h, hs, rfl⟩ area) fun _ _ hk => hk.2)
  | freeAll =>
      refine wp_then (wp_then (wp_mono ((hr true).wp_freeAllRestore ⟨h, hs, rfl⟩) ?_))
      rintro ⟨_, t⟩ _ ⟨_, ht, hsize⟩
      exact ⟨ht.discard.1, ht.discard.2.trans hsize⟩
  | freeAllRestore putBack =>
      exact wp_then (wp_mono ((hr putBack).wp_freeAllRestore ⟨h, hs, rfl⟩) fun _ _ hk => hk.2)
  | setConfig config => exact hs.setConfig config

/-- A request leaves the table in order, whatever it is and whatever the target answers. -/
theorem Passes.passage {issued : Option (Area A.width)} (h : Passes request s log s' seen)
    (hs : Sturdy s live mmu) (hs' : Backed s')
    (hpath : (request.perform.run s).Path log (issued, s')) :
    Stocked s' s'.order ∧ Passage s seen s' := by
  cases h with
  | attempts _ hattempts => exact hattempts.passage hs
  | other hnone =>
      obtain ⟨_, hstocked, hsize⟩ :=
        path_anyTarget (wp_perform_stocked hs.settled hs.stocked request hnone) hpath
      exact ⟨hstocked, .single hstocked hs' (hstocked.grows hsize)⟩

end Attempts

/-! ## The past -/

section Past

variable {A : Arch} {s : Areas A.width} {live : List (Area A.width)} {mmu : Bool}
  {past : List (Areas A.width)}

/-- What was seen of the areas of a target from the beginning, the last of it first: after every
    request, and on the way through each. -/
inductive Past (A : Arch) :
    List (Areas A.width) → Areas A.width → List (Area A.width) → Bool → Prop
  | new (id : Nat) (config : AreaConfig A.width) (mmu : Bool) :
      Past A [{ id, config }] { id, config } [] mmu
  | request {past seen : List (Areas A.width)} {s s' : Areas A.width}
      {live : List (Area A.width)} {mmu mmu' : Bool} {log : Transcript A}
      {issued : Option (Area A.width)} (request : AreaRequest A.width) :
      Past A past s live mmu → (request.perform.run s).Path log (issued, s') →
      (anyTarget A).Plays mmu log mmu' → Passes request s log s' seen →
      Past A (seen ++ past) s' (request.live live issued) mmu'

/-- Whatever is reached has a past. -/
theorem Reachable.has_past (h : Reachable A s live mmu) : ∃ past, Past A past s live mmu := by
  induction h with
  | new id config mmu => exact ⟨_, .new id config mmu⟩
  | request request _ run ih =>
      obtain ⟨past, hpast⟩ := ih
      obtain ⟨log, hpath, hplays⟩ := reaches_iff_plays.mp run
      obtain ⟨seen, hseen⟩ := passes_of_path hpath
      exact ⟨_, .request request hpast hpath hplays hseen⟩

/-- Whatever has a past is reached. -/
theorem Past.reachable (h : Past A past s live mmu) : Reachable A s live mmu := by
  induction h with
  | new id config mmu => exact .new id config mmu
  | request request _ hpath hplays _ ih =>
      exact .request request ih (reaches_iff_plays.mpr ⟨_, hpath, hplays⟩)

/-- The table was in order at any time, and there are as many slots as there were areas. -/
theorem Past.sound (h : Past A past s live mmu) :
    Stocked s s.order ∧ (∀ t ∈ past, SlotTable t) ∧ s.slots.size = most past := by
  induction h with
  | new id config mmu =>
      have hnew := stocked_new id config
      refine ⟨hnew, ?_, rfl⟩
      rintro _ hmem
      obtain rfl := List.mem_singleton.mp hmem
      exact hnew.table (.of_closed rfl)
  | request request hpast hpath hplays hseen ih =>
      obtain ⟨hstocked, htables, hsize⟩ := ih
      have hreachable := hpast.reachable
      have hnext := hreachable.request request (reaches_iff_plays.mpr ⟨_, hpath, hplays⟩)
      obtain ⟨hstocked', hpassage⟩ := hseen.passage
        ⟨hreachable.settled, hreachable.backed, hstocked⟩ hnext.backed hpath
      refine ⟨hstocked', ?_, ?_⟩
      · exact fun t ht => (List.mem_append.mp ht).elim (hpassage.sound t) (htables t)
      · rw [hpassage.size, hsize, most_append, Nat.max_comm]

/-- NO SLOT IS LOST, AND NONE IS THERE TWICE, whatever was asked and whatever the target answered.
    The table is in order, now and at any moment of any past that leads here; and there are just as
    many slots as there were areas at once, at some time. -/
theorem Reachable.slot_table (h : Reachable A s live mmu) :
    SlotTable s ∧ (∃ past, Past A past s live mmu) ∧
      ∀ past, Past A past s live mmu →
        (∀ t ∈ past, SlotTable t) ∧ s.slots.size = most past := by
  obtain ⟨past, hpast⟩ := h.has_past
  obtain ⟨hstocked, -, -⟩ := hpast.sound
  exact ⟨hstocked.table h.backed, ⟨past, hpast⟩, fun _ hpast => hpast.sound.2⟩

/-- Areas of a plain core, with a window of 64 bytes whose contents are to be put back. -/
def sampleSaving : Areas (plainCore 32).width where
  id := 1
  config := { size := 64, phys := some 0x1000, backup := true }

/-- Sixteen bytes were asked for, and could not be saved. -/
def sampleRejoined : Areas (plainCore 32).width :=
  ((sampleSaving.openAt 0x1000).carved 0 16).merge

theorem rejoined_reaches : Reachable (plainCore 32) sampleRejoined [] false := by
  refine @Reachable.request (plainCore 32) sampleSaving sampleRejoined [] true false none
    (.alloc 14) (.new 1 sampleSaving.config true) ?_
  -- the memory management unit, and the window
  refine .answer false rfl (.answer () rfl ?_)
  -- the bytes below the new area
  exact .answer () rfl (.answer (.error .nonFatal) rfl (.refl _ _))

/-- One block is left, and two slots: for a moment there were two areas. -/
theorem Reachable.slot_table_rejoined :
    sampleRejoined.order.length = 1 ∧ SlotTable sampleRejoined ∧
      ∃ past, Past (plainCore 32) past sampleRejoined [] false ∧ most past = 2 := by
  obtain ⟨htable, ⟨past, hpast⟩, hevery⟩ := Reachable.slot_table rejoined_reaches
  have hslots : sampleRejoined.slots.size = 2 := by decide
  exact ⟨by decide, htable, past, hpast, (hevery past hpast).2.symm.trans hslots⟩

end Past

end DebugLink.Areas
