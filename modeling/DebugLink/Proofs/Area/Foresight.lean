import DebugLink.Proofs.Area.FirstFit

/-!
# What is foretold before the window is opened

`availableNow` asks the target which window would be opened, and answers how much room the next
request will find.  `Foretold` is what it means that this comes true.

On a target whose memory management unit does not change its answer (`steadyUnit`), IT COMES TRUE
UNLESS one of two things is wrong with the window and the request (`Misjudged`):

* the window would run past the end of the address space.  Only `openWindow` notices that, and then
  there is no room at all, whatever was foretold.
* there is no address for the window that is asked for, and the request is so large that it is
  refused before anybody looks.  Then it is told how much `available` knows of, which may be more
  than the nothing that was foretold.
-/

namespace DebugLink.Areas

open Environment Dialogue

variable {A : Arch}

/-- A target that always says the same about its memory management unit: whether it can tell, and if
    so, what. -/
def steadyUnit (A : Arch) (supported : Bool) (enabled : Except TargetError Bool) :
    Environment A Unit where
  moves _ _ := False
  answers _ op answer _ :=
    match op, answer with
    | .feature .mmu, answer => answer = supported
    | .call .mmuEnabled, answer => answer = enabled
    | _, _ => True

/-- What it says. -/
def unitAnswer (supported : Bool) (enabled : Except TargetError Bool) : Except Error Bool :=
  if supported then enabled.mapError .ofTarget else .ok false

/-- A request for `m` bytes finds what was foretold, `n` bytes. -/
structure Foretold (s : Areas A.width) (n m : Nat)
    (r : Except Error (Area A.width) × Areas A.width) : Prop where
  room : (∀ requested available, r.1 ≠ .error (.resourceNotAvailable requested available)) ↔ m ≤ n
  served : m ≤ n → s.config.backup = false → r.1.isOk = true
  refused : n < m → ∃ requested, r.1 = .error (.resourceNotAvailable requested n)

/-- The window would run past the end of the address space. -/
def Wraps (s : Areas A.width) (on : Bool) : Prop :=
  ∃ base, s.config.window? on = some base ∧ ¬Arch.Fits base s.config.usable

/-- There is no such window, and nobody looks. -/
def Unasked (s : Areas A.width) (on : Bool) (m : Nat) : Prop :=
  s.config.window? on = none ∧ 2 ^ 32 ≤ m ∧ 0 < s.available

/-- What is foretold of the window may be wrong for a request of `m` bytes. -/
def Misjudged (s : Areas A.width) (on : Bool) (m : Nat) : Prop :=
  m < 2 ^ 32 ∧ s.Wraps on ∨ s.Unasked on m

section Paths

variable {s : Areas A.width} {live : List (Area A.width)} {supported on : Bool}
  {enabled : Except TargetError Bool} {base : BitVec A.width} {n m size : Nat}
  {log : Transcript A} {r : Except Error (Area A.width) × Areas A.width}

/-- The first part of what a steady unit answers is what it says. -/
theorem steadyUnit_answer {more : Transcript A} {answer : Except Error Bool} {w w' : Unit}
    (h : (mmuOn (A := A)).run.Path log answer)
    (hplays : (steadyUnit A supported enabled).Plays w (log ++ more) w') :
    answer = unitAnswer supported enabled := by
  rcases path_mmuOn h with ⟨rfl, rfl⟩ | ⟨on, rfl, rfl⟩
  · obtain ⟨_, _, -, hfirst, -⟩ := hplays.first
    obtain rfl : false = supported := hfirst
    rfl
  · obtain ⟨_, _, -, hfirst, hrest⟩ := hplays.first
    obtain rfl : true = supported := hfirst
    obtain ⟨_, _, -, hsecond, -⟩ := hrest.first
    obtain rfl : on = enabled := hsecond
    rfl

/-- How much room is foretold. -/
def foretold (s : Areas A.width) (on : Bool) : Nat :=
  match s.config.window? on with
  | some _ => s.config.usable
  | none => 0

/-- What a closed window counts as available is what is foretold of it, unless there is none. -/
theorem available_foretold (ho : s.opened = false) (on : Bool)
    (hnone : s.config.window? on = none → s.available = 0) :
    s.available = s.foretold on ∧ s.available ≤ s.config.usable := by
  have havailable : s.available =
      if s.config.phys.isNone ∧ s.config.virt.isNone then 0 else s.config.usable := by
    rw [available, ho]
    rfl
  have hle : s.available ≤ s.config.usable := by
    rw [havailable]
    split
    · exact Nat.zero_le _
    · exact Nat.le_refl _
  refine ⟨?_, hle⟩
  rw [Areas.foretold]
  cases hw : s.config.window? on with
  | none => exact hnone hw
  | some base =>
      rw [havailable, if_neg]
      rintro ⟨hphys, hvirt⟩
      rw [Option.isNone_iff_eq_none] at hphys hvirt
      rw [AreaConfig.window?, hphys, hvirt, ite_self] at hw
      exact absurd hw (by simp)

theorem path_availableNow (ho : s.opened = false)
    (h : (availableNow s).run.Path log (.ok n)) :
    ∃ on, (mmuOn (A := A)).run.Path log (.ok on) ∧ n = s.foretold on := by
  rw [availableNow, ho] at h
  obtain ⟨l₁, l₂, answer, rfl, hmmu, hlast⟩ := path_bind.mp h
  cases answer with
  | error e =>
      obtain ⟨-, heq⟩ := path_done.mp hlast
      cases heq
  | ok on =>
      refine ⟨on, ?_⟩
      rw [foretold]
      change Path (ExceptT.run (match s.config.window? on with | some _ => _ | none => _)) l₂ _
        at hlast
      cases hw : s.config.window? on with
      | none =>
          rw [hw] at hlast
          obtain ⟨rfl, heq⟩ := path_done.mp hlast
          rw [List.append_nil]
          exact ⟨hmmu, (Except.ok.inj heq).symm⟩
      | some base =>
          rw [hw] at hlast
          obtain ⟨rfl, heq⟩ := path_done.mp hlast
          rw [List.append_nil]
          exact ⟨hmmu, (Except.ok.inj heq).symm⟩

/-- There is less room than the request needs, and it is told so. -/
theorem Foretold.of_refused (hlt : n < m) {requested : Nat}
    (hr : r.1 = .error (.resourceNotAvailable requested n)) : Foretold s n m r where
  room := ⟨fun hne => absurd hr (hne requested n), fun hle => absurd hle (Nat.not_le_of_lt hlt)⟩
  served := fun hle => absurd hle (Nat.not_le_of_lt hlt)
  refused := fun _ => ⟨requested, hr⟩

/-- There is enough room, and nothing but saving can fail. -/
theorem Foretold.of_room (hle : m ≤ n)
    (hr : r.1.isOk = true ∨ s.config.backup = true ∧ ∃ e, r.1 = .error (.ofTarget e)) :
    Foretold s n m r where
  room := by
    refine ⟨fun _ => hle, fun _ requested available heq => ?_⟩
    rcases hr with hok | ⟨-, e, he⟩
    · rw [heq] at hok
      exact absurd hok Bool.false_ne_true
    · exact Error.ofTarget_ne_full e _ _ (Except.error.inj (he.symm.trans heq))
  served := by
    intro _ hb
    rcases hr with hok | ⟨hb', -⟩
    · exact hok
    · exact absurd (hb.symm.trans hb') (by simp)
  refused := fun hlt => absurd hle (Nat.not_le_of_lt hlt)

/-- In a window that was just opened, a request finds all of it. -/
theorem Closed.served_openAt (h : Closed s live) (hfits : Arch.Fits base s.config.usable)
    (hpos : 0 < m) {calls : List (Exchange A)} (hserved : Served (s.openAt base) m calls r) :
    Foretold s s.config.usable m r := by
  obtain ⟨hopen, -⟩ := h.openAt hfits
  have hlayout := layout_openAt (h.order ▸ h.slotted) h.order base
  have havailable := available_single hlayout rfl
  have hroom : ∀ {i : Nat}, (s.openAt base).firstFit? m = some i → m ≤ s.config.usable := by
    intro i hi
    obtain ⟨b, hb, -, hm⟩ := firstFit_isSome.mp (Option.isSome_of_eq_some hi)
    rw [hlayout, List.mem_singleton] at hb
    rwa [hb] at hm
  cases hserved with
  | full hnone =>
      have hlt := available_lt hopen.opened_eq hpos hnone
      rw [havailable] at hlt ⊢
      exact .of_refused hlt rfl
  | bare hi _ => exact .of_room (hroom hi) (Or.inl rfl)
  | saved _ hi _ => exact .of_room (hroom hi) (Or.inl rfl)
  | unread e hi hb =>
      rw [openAt_config] at hb
      exact .of_room (hroom hi) (Or.inr ⟨hb, e, rfl⟩)

/-- What happens if the window or the request is such that it is misjudged is not what was
    foretold. -/
theorem Misjudged.not_foretold (h : s.Misjudged on m)
    (hwraps : m < 2 ^ 32 → s.Wraps on → r = (.error (.resourceNotAvailable m 0), s))
    (hunasked : s.Unasked on m → r = (.error (.resourceNotAvailable size s.available), s)) :
    ¬Foretold s (s.foretold on) m r := by
  intro hf
  rcases h with ⟨hlt, base, hw, hnot⟩ | ⟨hw, hover, hsome⟩
  · obtain rfl := hwraps hlt ⟨base, hw, hnot⟩
    have hless : s.foretold on < m :=
      Nat.lt_of_not_le fun hle => hf.room.mpr hle m 0 rfl
    obtain ⟨_, heq⟩ := hf.refused hless
    have hzero : 0 = s.foretold on := (Error.resourceNotAvailable.inj (Except.error.inj heq)).2
    rw [Areas.foretold, hw] at hzero
    exact hnot (Or.inl hzero.symm)
  · obtain rfl := hunasked ⟨hw, hover, hsome⟩
    have hnone : s.foretold on = 0 := by rw [Areas.foretold, hw]
    obtain ⟨_, heq⟩ := hf.refused (by omega)
    have havailable := (Error.resourceNotAvailable.inj (Except.error.inj heq)).2
    omega

/-- WHAT IS FORETOLD COMES TRUE, if the memory management unit does not change its answer, just
    unless the window or the request is such that it is misjudged; and what happens then.  The size
    of the window is a 32-bit number. -/
theorem Reachable.comes_true {mmu : Bool} (h : Reachable A s live mmu) (ho : s.opened = false)
    (hsize : s.config.size < 2 ^ 32)
    (hnow : (steadyUnit A supported enabled).Reaches (availableNow s).run () (.done (.ok n)) ())
    (hrun : (steadyUnit A supported enabled).Reaches ((allocTry size).run.run s) () (.done r) ()) :
    ∃ on, unitAnswer supported enabled = .ok on ∧ n = s.foretold on ∧
      (Foretold s n (wholeWords size) r ↔ ¬s.Misjudged on (wholeWords size)) ∧
      (wholeWords size < 2 ^ 32 → s.Wraps on →
        r = (.error (.resourceNotAvailable (wholeWords size) 0), s)) ∧
      (s.Unasked on (wholeWords size) →
        r = (.error (.resourceNotAvailable size s.available), s)) := by
  obtain ⟨first, hfirst, hplays⟩ := reaches_iff_plays.mp hnow
  obtain ⟨log, hpath, hplays'⟩ := reaches_iff_plays.mp hrun
  obtain ⟨on, hseen, rfl⟩ := path_availableNow ho hfirst
  rw [← List.append_nil first] at hplays
  have hon := steadyUnit_answer hseen hplays
  have husable : s.config.usable ≤ s.config.size := Nat.div_mul_le_self _ _
  have hclosed := h.settled.closed ho
  have hpos : 0 < wholeWords size := by
    rw [wholeWords]
    omega
  suffices hcases : (¬s.Misjudged on (wholeWords size) →
      Foretold s (s.foretold on) (wholeWords size) r) ∧
      (wholeWords size < 2 ^ 32 → s.Wraps on →
        r = (.error (.resourceNotAvailable (wholeWords size) 0), s)) ∧
      (s.Unasked on (wholeWords size) →
        r = (.error (.resourceNotAvailable size s.available), s)) by
    obtain ⟨hsound, hwraps, hunasked⟩ := hcases
    exact ⟨on, hon.symm, rfl,
      ⟨fun hf hmis => hmis.not_foretold hwraps hunasked hf, hsound⟩, hwraps, hunasked⟩
  cases path_allocTry hpath with
  | overflow hnone =>
      have hover := roundUp?_none hnone
      refine ⟨fun hsound => ?_, fun hlt => absurd hlt (Nat.not_lt_of_le hover), fun _ => rfl⟩
      have havailable := available_foretold ho on fun hw => by
        by_contra hne
        exact hsound (Or.inr ⟨hw, hover, Nat.pos_of_ne_zero hne⟩)
      rw [← havailable.1]
      exact .of_refused (by omega) rfl
  | opened _ hopened _ => exact absurd (hopened.symm.trans ho) (by simp)
  | unlearned _ _ hunlearned =>
      rw [← List.append_nil log] at hplays'
      cases hon.trans (steadyUnit_answer hunlearned hplays').symm
  | unusable hm _ hasked hnone _ =>
      obtain rfl := Except.ok.inj (hon.trans (steadyUnit_answer hasked hplays').symm)
      obtain ⟨rfl, hlt⟩ := roundUp?_some hm
      refine ⟨fun hsound => ?_, fun _ _ => rfl, fun hunasked => ?_⟩
      · have hnot : s.config.window? on = none := by
          cases hw : s.config.window? on with
          | none => rfl
          | some base => exact absurd (Or.inl ⟨hlt, base, hw, fun hf => hnone base ⟨hw, hf⟩⟩) hsound
        rw [Areas.foretold, hnot]
        exact .of_refused hpos rfl
      · exact absurd hunasked.2.1 (Nat.not_le_of_lt hlt)
  | @opens _ _ base seen more _ hm _ hasked hopens hserve =>
      rw [List.append_assoc] at hplays'
      obtain rfl := Except.ok.inj (hon.trans (steadyUnit_answer hasked hplays').symm)
      obtain ⟨rfl, hlt⟩ := roundUp?_some hm
      obtain ⟨hw, hfits⟩ := hopens
      refine ⟨fun _ => ?_, fun _ hwraps => ?_, fun hunasked => ?_⟩
      · rw [Areas.foretold, hw]
        exact hclosed.served_openAt hfits hpos (path_serve (hclosed.openAt hfits).1 hpos hserve)
      · obtain ⟨base', hw', hwrap⟩ := hwraps
        obtain rfl := Option.some.inj (hw.symm.trans hw')
        exact absurd hfits hwrap
      · exact absurd hunasked.2.1 (Nat.not_le_of_lt hlt)

end Paths

/-! ## Two windows -/

section Sample

/-- A target that has no memory management unit at all. -/
theorem plainEnd_steady {α : Type} (d : Dialogue A α) :
    (steadyUnit A false (.error .nonFatal)).Reaches d () (.done (plainEnd d)) () := by
  induction d with
  | done x => exact .refl _ _
  | ask op next ih =>
      refine .answer (plainAnswer op) ?_ (ih (plainAnswer op))
      cases op with
      | call c => cases c <;> first | rfl | trivial
      | feature f => cases f <;> first | rfl | trivial
      | host r => trivial
      | note n => trivial

/-- A window of 64 bytes, and a request for fourteen. -/
theorem Reachable.comes_true_sample :
    sample.foretold false = 64 ∧
      Foretold sample 64 16 (plainEnd ((allocTry (A := plainCore 32) 14).run.run sample)) := by
  have hnew := Reachable.new (A := plainCore 32) 1 sample.config false
  obtain ⟨on, hon, -, hiff, -⟩ := Reachable.comes_true hnew rfl (by decide)
    (plainEnd_steady (availableNow (A := plainCore 32) sample).run)
    (plainEnd_steady ((allocTry (A := plainCore 32) 14).run.run sample))
  obtain rfl : false = on := Except.ok.inj hon
  refine ⟨rfl, hiff.mpr ?_⟩
  rintro (⟨-, base, hw, hwrap⟩ | ⟨hnone, -⟩)
  · obtain rfl : 0x1000 = base := Option.some.inj hw
    exact hwrap (by decide)
  · exact absurd hnone (by decide)

/-- A window of 256 bytes of which only the first half lies in the address space. -/
def halfOutside : Areas (plainCore 32).width where
  id := 1
  config := { size := 256, phys := some 0xffffff80 }

/-- All of it is foretold, and there is no room for a single word. -/
theorem not_comes_true : ¬∀ (A : Arch) (s : Areas A.width) (live : List (Area A.width))
    (mmu supported : Bool) (enabled : Except TargetError Bool) (n size : Nat)
    (r : Except Error (Area A.width) × Areas A.width),
    Reachable A s live mmu → s.opened = false → s.config.size < 2 ^ 32 →
    (steadyUnit A supported enabled).Reaches (availableNow s).run () (.done (.ok n)) () →
    (steadyUnit A supported enabled).Reaches ((allocTry size).run.run s) () (.done r) () →
    Foretold s n (wholeWords size) r := by
  intro hall
  have hnew := Reachable.new (A := plainCore 32) 1 halfOutside.config false
  have hforetold := hall (plainCore 32) halfOutside [] false false _ 256 4 _ hnew rfl
    (by decide) (plainEnd_steady (availableNow (A := plainCore 32) halfOutside).run)
    (plainEnd_steady ((allocTry (A := plainCore 32) 4).run.run halfOutside))
  exact hforetold.room.mpr (by decide) 4 0 rfl

end Sample

end DebugLink.Areas
