import DebugLink.Registry
import Mathlib.Data.List.Nodup
import Mathlib.Logic.Function.Basic

/-!
# A registry is a directory

A `Directory` knows names only: their order, what is registered under each, and which one is
selected.  A registry keeps the selection as a POSITION, and positions shift when an entry goes.

* `Stands` takes the entries apart around the one at a position.  No other entry has its name, so
  that each request can be followed on the two parts.
* `Stands.rebased` is THE SHIFT: where the selection is once an entry is gone.
* `Sound.perform` is the step.  A registry answers every request as the directory does that it shows
  (`view`), and shows afterwards what that has become.
* `Sound.performAll` is the run, by induction on the requests.
-/

namespace DebugLink

/-- Names in an order, something registered under each, and a selected name. -/
structure Directory (α : Type) where
  names : List String := []
  target : String → Option α := fun _ => none
  selected : Option String := none

namespace Directory

variable {α : Type} (d : Directory α)

/-- What had the name before is replaced; a new name comes last, and is selected if nothing is. -/
def insert (name : String) (x : α) : Option α × Directory α :=
  (d.target name,
    { names := if name ∈ d.names then d.names else d.names ++ [name]
      target := Function.update d.target name (some x)
      selected := if name ∈ d.names then d.selected else d.selected <|> some name })

/-- The name goes, and the selection goes with it. -/
def remove (name : String) : Option (String × α) × Directory α :=
  ((d.target name).map (name, ·),
    { names := d.names.erase name
      target := Function.update d.target name none
      selected := if d.selected = some name then none else d.selected })

/-- A name that is registered can be selected. -/
def select (name : String) : Bool × Directory α :=
  if name ∈ d.names then (true, { d with selected := some name }) else (false, d)

/-- Something else is registered under a name. -/
def store (name : String) (x : α) : Directory α :=
  { d with target := Function.update d.target name (some x) }

/-- The selected name, and what is registered under it. -/
def selected? : Option (String × α) :=
  d.selected.bind fun name => (d.target name).map (name, ·)

end Directory

/-- What can be asked of a registry. -/
inductive RegistryRequest (α : Type) where
  | insert (name : String) (x : α)
  | remove (name : String)
  | select (name : String)

/-- What is answered. -/
inductive RegistryAnswer (α : Type) where
  | replaced (old : Option α)
  | removed (entry : Option (String × α))
  | selected (found : Bool)

/-- Serves a request, and changes a directory accordingly. -/
def Directory.perform {α : Type} (d : Directory α) :
    RegistryRequest α → RegistryAnswer α × Directory α
  | .insert name x => ((d.insert name x).map .replaced id)
  | .remove name => ((d.remove name).map .removed id)
  | .select name => ((d.select name).map .selected id)

/-- Serves requests in a row. -/
def performAll {α σ : Type} (perform : σ → RegistryRequest α → RegistryAnswer α × σ) (s : σ) :
    List (RegistryRequest α) → List (RegistryAnswer α) × σ
  | [] => ([], s)
  | request :: rest =>
    ((performAll perform (perform s request).2 rest).map ((perform s request).1 :: ·) id)

namespace Registry

variable {α : Type} {r : Registry α} {name : String} {i : Nat} {x : α}
  {before after : List (String × α)}

/-- Serves a request. -/
def perform (r : Registry α) : RegistryRequest α → RegistryAnswer α × Registry α
  | .insert name x => ((r.insert name x).map .replaced id)
  | .remove name => ((r.remove name).map .removed id)
  | .select name => ((r.select name).map .selected id)

/-- What a registry shows. -/
def view (r : Registry α) : Directory α where
  names := r.names
  target := r.get?
  selected := r.selected?.map (·.1)

/-- Names are distinct, and the selection is one of the entries. -/
structure Sound (r : Registry α) : Prop where
  distinct : r.names.Nodup
  current : ∀ i, r.current = some i → i < r.size

/-! ## Entries -/

/-- What the first entry of a name holds. -/
def lookup (entries : List (String × α)) (name : String) : Option α :=
  (entries.find? (·.1 = name)).map (·.2)

/-- The first entry of a name is found, ... -/
theorem lookup_cons_self : lookup ((name, x) :: after) name = some x := by
  simp [lookup]

/-- ... and others are passed over. -/
theorem lookup_cons_other {n : String} (h : n ≠ name) :
    lookup ((name, x) :: after) n = lookup after n := by
  simp [lookup, Ne.symm h]

/-- What has no entry is not found. -/
theorem lookup_eq_none (h : name ∉ before.map (·.1)) : lookup before name = none := by
  simp only [lookup, Option.map_eq_none_iff, List.find?_eq_none, decide_eq_true_eq]
  rintro e he rfl
  exact h (List.mem_map_of_mem he)

/-- One entry more is one name more. -/
theorem lookup_middle (h : name ∉ before.map (·.1)) :
    lookup (before ++ (name, x) :: after) =
      Function.update (lookup (before ++ after)) name (some x) := by
  funext n
  -- on the entries in front, none of which has the name
  induction before with
  | nil =>
      by_cases hn : n = name
      · subst hn
        rw [Function.update_self]
        exact lookup_cons_self
      · rw [Function.update_of_ne hn]
        exact lookup_cons_other hn
  | cons e before ih =>
      obtain ⟨m, y⟩ := e
      have hm : m ≠ name := fun hm => h (hm ▸ List.mem_cons_self)
      have hrest := ih fun hmem => h (List.mem_cons_of_mem _ hmem)
      by_cases hnm : n = m
      · subst hnm
        rw [Function.update_of_ne hm]
        exact lookup_cons_self.trans lookup_cons_self.symm
      · refine (lookup_cons_other hnm).trans (hrest.trans ?_)
        by_cases hn : n = name
        · subst hn
          rw [Function.update_self, Function.update_self]
        · rw [Function.update_of_ne hn, Function.update_of_ne hn]
          exact (lookup_cons_other hnm).symm

/-- The entry at a position, and no other, has this name. -/
structure Stands (r : Registry α) (i : Nat) (before : List (String × α)) (name : String) (x : α)
    (after : List (String × α)) : Prop where
  entries : r.entries = before ++ (name, x) :: after
  length : before.length = i
  alone : name ∉ before.map (·.1) ∧ name ∉ after.map (·.1)

namespace Stands

/-- The names stand in the order of the entries. -/
theorem names (h : Stands r i before name x after) :
    r.names = before.map (·.1) ++ name :: after.map (·.1) := by
  rw [Registry.names, h.entries, List.map_append, List.map_cons]

/-- What has an entry has a name. -/
theorem mem_names (h : Stands r i before name x after) : name ∈ r.names := by
  rw [h.names]
  exact List.mem_append_right _ List.mem_cons_self

/-- An entry that stands there is what its name leads to. -/
theorem get? (h : Stands r i before name x after) :
    r.get? = Function.update (lookup (before ++ after)) name (some x) := by
  rw [← lookup_middle h.alone.1, ← h.entries]
  rfl

/-- Without the entry, nothing is registered under the name. -/
theorem lookup_others (h : Stands r i before name x after) :
    lookup (before ++ after) name = none := by
  refine lookup_eq_none ?_
  rw [List.map_append, List.mem_append]
  exact fun hmem => hmem.elim h.alone.1 h.alone.2

/-- It is found by its position, too. -/
theorem entry (h : Stands r i before name x after) : r.entries[i]? = some (name, x) := by
  rw [h.entries, ← h.length, List.getElem?_append_right (Nat.le_refl _), Nat.sub_self]
  rfl

/-- Something else is put there. -/
theorem set (h : Stands r i before name x after) (y : α) :
    Stands { r with entries := r.entries.set i (name, y) } i before name y after := by
  refine ⟨?_, h.length, h.alone⟩
  show r.entries.set i (name, y) = _
  rw [h.entries, ← h.length, List.set_append_right _ _ (Nat.le_refl _), Nat.sub_self]
  rfl

end Stands

/-! ## Positions -/

/-- The entry at a position. -/
theorem Sound.stands (h : r.Sound) (hi : i < r.size) :
    ∃ before name x after, Stands r i before name x after := by
  have hlt : i < r.entries.length := hi
  obtain ⟨⟨name, x⟩, hentry⟩ : ∃ e, r.entries[i] = e := ⟨_, rfl⟩
  have hentries : r.entries = r.entries.take i ++ (name, x) :: r.entries.drop (i + 1) := by
    rw [← hentry, List.getElem_cons_drop, List.take_append_drop]
  have hlength : (r.entries.take i).length = i := by
    rw [List.length_take]
    exact Nat.min_eq_left (Nat.le_of_lt hlt)
  refine ⟨_, name, x, _, hentries, hlength, ?_⟩
  have hdistinct := h.distinct
  rw [names, hentries, List.map_append, List.map_cons, List.nodup_middle,
    List.nodup_cons, List.mem_append, not_or] at hdistinct
  exact hdistinct.1

/-- A name that is found stands there. -/
theorem Sound.stands_of_position (h : r.Sound) (hi : r.position? name = some i) :
    ∃ before x after, Stands r i before name x after := by
  obtain ⟨hlt, hname, -⟩ := List.findIdx?_eq_some_iff_getElem.mp hi
  obtain ⟨before, n, x, after, hstands⟩ := h.stands hlt
  have hentry := hstands.entry
  rw [List.getElem?_eq_getElem hlt] at hentry
  rw [Option.some.inj hentry] at hname
  obtain rfl : n = name := of_decide_eq_true hname
  exact ⟨before, x, after, hstands⟩

/-- A name that is not found is not there. -/
theorem not_mem_of_position (h : r.position? name = none) : name ∉ r.names := by
  rw [position?, List.findIdx?_eq_none_iff] at h
  intro hmem
  obtain ⟨e, he, rfl⟩ := List.mem_map.mp hmem
  exact absurd (h e he) (by simp)

/-- The selected name. -/
theorem selected_view (r : Registry α) :
    r.view.selected = r.current.bind fun i => r.names[i]? := by
  show (r.current.bind fun i => r.entries[i]?).map (·.1) = _
  cases r.current with
  | none => rfl
  | some i => exact (List.getElem?_map ..).symm

/-- Only a name that is registered is selected. -/
theorem mem_of_selected (h : r.view.selected = some name) : name ∈ r.names := by
  rw [selected_view, Option.bind_eq_some_iff] at h
  obtain ⟨i, -, hi⟩ := h
  exact List.mem_of_getElem? hi

/-- A registry shows what it holds and which name is selected. -/
theorem view_eq {d : Directory α} (hnames : r.names = d.names) (htarget : r.get? = d.target)
    (hselected : (r.current.bind fun i => r.names[i]?) = d.selected) : r.view = d := by
  rw [← selected_view] at hselected
  obtain ⟨names, target, selected⟩ := d
  obtain rfl : r.names = names := hnames
  obtain rfl : r.get? = target := htarget
  obtain rfl : r.view.selected = selected := hselected
  rfl

/-! ## The step -/

/-- Something else is stored at a position. -/
theorem Sound.set (h : r.Sound) (hs : Stands r i before name x after) (y : α) :
    Sound { r with entries := r.entries.set i (name, y) } ∧
      view { r with entries := r.entries.set i (name, y) } = r.view.store name y := by
  have hset := hs.set y
  have hnames : names { r with entries := r.entries.set i (name, y) } = r.names :=
    hset.names.trans hs.names.symm
  refine ⟨⟨hnames ▸ h.distinct, fun j hj => ?_⟩, view_eq hnames ?_ ?_⟩
  · show j < (r.entries.set i (name, y)).length
    rw [List.length_set]
    exact h.current j hj
  · rw [hset.get?]
    show _ = Function.update r.get? name (some y)
    rw [hs.get?, Function.update_idem]
  · rw [hnames]
    exact (selected_view r).symm

/-- To put in an entry does to the directory what it does to the registry. -/
theorem Sound.insert (h : r.Sound) (name : String) (x : α) :
    (r.insert name x).1 = (r.view.insert name x).1 ∧ (r.insert name x).2.Sound ∧
      (r.insert name x).2.view = (r.view.insert name x).2 := by
  cases hi : r.position? name with
  | some i =>
      -- the name is known: its entry is replaced where it stands
      obtain ⟨before, old, after, hs⟩ := h.stands_of_position hi
      have hinsert : r.insert name x =
          (some old, { r with entries := r.entries.set i (name, x) }) := by
        rw [Registry.insert, hi]
        simp only [hs.entry]
        rfl
      obtain ⟨hsound, hview⟩ := h.set hs x
      rw [hinsert]
      refine ⟨?_, hsound, ?_⟩
      · show some old = r.get? name
        rw [hs.get?, Function.update_self]
      · rw [hview]
        have hmem : name ∈ r.view.names := hs.mem_names
        rw [Directory.insert, if_pos hmem, if_pos hmem]
        rfl
  | none =>
      -- it is new: its entry comes last, and is selected if none was
      have hnot := not_mem_of_position hi
      have hinsert : r.insert name x = (none,
          { entries := r.entries ++ [(name, x)]
            current := r.current <|> some r.entries.length }) := by
        rw [Registry.insert, hi]
      have hnames : (r.insert name x).2.names = r.names ++ [name] := by
        rw [hinsert, names, names, List.map_append]
        rfl
      have hsize : r.names.length = r.entries.length := List.length_map _
      refine ⟨?_, ⟨?_, ?_⟩, view_eq ?_ ?_ ?_⟩
      · rw [hinsert]
        exact (lookup_eq_none hnot).symm
      · rw [hnames]
        exact List.nodup_append.mpr ⟨h.distinct, List.nodup_singleton _, by
          rintro n hn _ hm rfl
          exact hnot (List.mem_singleton.mp hm ▸ hn)⟩
      · intro j hj
        rw [hinsert] at hj ⊢
        show j < (r.entries ++ [(name, x)]).length
        rw [List.length_append, List.length_singleton]
        cases hc : r.current with
        | none =>
            rw [hc] at hj
            obtain rfl : r.entries.length = j := Option.some.inj hj
            exact Nat.lt_succ_self _
        | some c =>
            rw [hc] at hj
            obtain rfl : c = j := Option.some.inj hj
            exact Nat.lt_succ_of_lt (h.current c hc)
      · rw [hnames]
        exact (if_neg hnot).symm
      · rw [hinsert]
        show lookup (r.entries ++ [(name, x)]) = Function.update (lookup r.entries) name (some x)
        rw [lookup_middle hnot, List.append_nil]
      · rw [hnames, hinsert]
        show _ = if name ∈ r.names then r.view.selected else r.view.selected <|> some name
        rw [if_neg hnot, selected_view]
        cases hc : r.current with
        | none =>
            show (r.names ++ [name])[r.entries.length]? = some name
            rw [← hsize, List.getElem?_append_right (Nat.le_refl _), Nat.sub_self]
            rfl
        | some c =>
            have hlt : c < r.names.length := hsize ▸ h.current c hc
            show (r.names ++ [name])[c]? = (r.names[c]? <|> some name)
            rw [List.getElem?_append_left hlt, List.getElem?_eq_getElem hlt]
            rfl

/-- So does a selection, ... -/
theorem Sound.select (h : r.Sound) (name : String) :
    (r.select name).1 = (r.view.select name).1 ∧ (r.select name).2.Sound ∧
      (r.select name).2.view = (r.view.select name).2 := by
  cases hi : r.position? name with
  | some i =>
      -- a known name is selected, by the position of its entry
      obtain ⟨before, x, after, hs⟩ := h.stands_of_position hi
      have hlt : i < r.size := by
        rw [size, hs.entries, ← hs.length, List.length_append, List.length_cons]
        omega
      have hselect : r.select name = (true, { r with current := some i }) := by
        rw [Registry.select, hi]
      have hview : r.view.select name = (true, { r.view with selected := some name }) :=
        if_pos hs.mem_names
      rw [hselect, hview]
      refine ⟨rfl, ⟨h.distinct, fun j hj => ?_⟩, view_eq rfl rfl ?_⟩
      · obtain rfl := Option.some.inj hj
        exact hlt
      · show (r.entries.map (·.1))[i]? = some name
        rw [List.getElem?_map, hs.entry]
        rfl
  | none =>
      have hselect : r.select name = (false, r) := by
        rw [Registry.select, hi]
      have hview : r.view.select name = (false, r.view) := if_neg (not_mem_of_position hi)
      rw [hselect, hview]
      exact ⟨rfl, h, rfl⟩

/-- Without it the others are left, in their order. -/
theorem Stands.eraseIdx (hs : Stands r i before name x after) :
    r.entries.eraseIdx i = before ++ after := by
  rw [hs.entries, ← hs.length, List.eraseIdx_append_of_length_le (Nat.le_refl _), Nat.sub_self]
  rfl

/-- The position that was selected, once entry `i` is gone. -/
def rebased (i : Nat) : Option Nat → Option Nat
  | none => none
  | some c => if c = i then none else if i < c then some (c - 1) else some c

/-- THE SHIFT.  The position that is left names what it did, unless that name is gone. -/
theorem Stands.rebased (hs : Stands r i before name x after) :
    ((rebased i r.current).bind fun c => (before.map (·.1) ++ after.map (·.1))[c]?) =
      if r.view.selected = some name then none else r.view.selected := by
  have hlength : (before.map (·.1)).length = i := (List.length_map _).trans hs.length
  have hnames := hs.names
  rw [selected_view]
  cases hc : r.current with
  | none => exact (ite_self _).symm
  | some c =>
      show ((Registry.rebased i (some c)).bind _) =
        if r.names[c]? = some name then none else r.names[c]?
      obtain hlt | rfl | hgt := Nat.lt_trichotomy c i
      · -- an earlier name is still where it was
        have hold : r.names[c]? = (before.map (·.1))[c]? := by
          rw [hnames, List.getElem?_append_left (hlength ▸ hlt)]
        have hother : (before.map (·.1))[c]? ≠ some name := fun h =>
          hs.alone.1 (List.mem_of_getElem? h)
        rw [hold, if_neg hother, Registry.rebased, if_neg (Nat.ne_of_lt hlt),
          if_neg (Nat.not_lt_of_lt hlt)]
        exact List.getElem?_append_left (hlength ▸ hlt)
      · have hold : r.names[c]? = some name := by
          rw [hnames, List.getElem?_append_right (Nat.le_of_eq hlength), hlength, Nat.sub_self]
          rfl
        rw [hold, if_pos rfl, Registry.rebased, if_pos rfl]
        rfl
      · -- a later name has moved up by one
        have hold : r.names[c]? = (after.map (·.1))[c - 1 - i]? := by
          obtain ⟨k, rfl⟩ := Nat.exists_eq_add_of_lt hgt
          rw [hnames, List.getElem?_append_right (by omega), hlength,
            show i + k + 1 - i = k + 1 by omega, List.getElem?_cons_succ]
          congr 1
          omega
        have hother : (after.map (·.1))[c - 1 - i]? ≠ some name := fun h =>
          hs.alone.2 (List.mem_of_getElem? h)
        rw [hold, if_neg hother, Registry.rebased, if_neg (Nat.ne_of_gt hgt), if_pos hgt,
          Option.bind_some, List.getElem?_append_right (by omega), hlength]

/-- ... and a removal. -/
theorem Sound.remove (h : r.Sound) (name : String) :
    (r.remove name).1 = (r.view.remove name).1 ∧ (r.remove name).2.Sound ∧
      (r.remove name).2.view = (r.view.remove name).2 := by
  cases hi : r.position? name with
  | some i =>
      -- those behind it move up by one, and so does the position that is selected
      obtain ⟨before, x, after, hs⟩ := h.stands_of_position hi
      have hremove : r.remove name = (some (name, x),
          { entries := before ++ after, current := rebased i r.current }) := by
        rw [Registry.remove, hi]
        simp only [hs.entry, hs.eraseIdx]
        rfl
      have hdistinct := h.distinct
      rw [hs.names, List.nodup_middle, List.nodup_cons, ← List.map_append] at hdistinct
      rw [hremove]
      refine ⟨?_, ⟨hdistinct.2, fun j hj => ?_⟩, view_eq ?_ ?_ ?_⟩
      · show some (name, x) = (r.get? name).map (name, ·)
        rw [hs.get?, Function.update_self]
        rfl
      · have hsize : r.size = (before ++ after).length + 1 := by
          rw [size, hs.entries, List.length_append, List.length_cons, List.length_append]
          omega
        have hin : i ≤ (before ++ after).length := by
          rw [← hs.length, List.length_append]
          exact Nat.le_add_right _ _
        show j < (before ++ after).length
        cases hc : r.current with
        | none =>
            rw [hc] at hj
            cases hj
        | some c =>
            have hlt := h.current c hc
            have hj' : rebased i (some c) = some j := hc ▸ hj
            simp only [rebased] at hj'
            split at hj'
            · cases hj'
            · split at hj' <;> obtain rfl := Option.some.inj hj' <;> omega
      · show (before ++ after).map (·.1) = r.names.erase name
        rw [hs.names, List.erase_append_right _ hs.alone.1, List.erase_cons_head,
          List.map_append]
      · show lookup (before ++ after) = Function.update r.get? name none
        rw [hs.get?, Function.update_idem, ← hs.lookup_others, Function.update_eq_self]
      · show ((rebased i r.current).bind fun c => ((before ++ after).map (·.1))[c]?) = _
        rw [List.map_append]
        exact hs.rebased
  | none =>
      -- an unknown name: nothing changes, the selection in particular
      have hnot := not_mem_of_position hi
      have hremove : r.remove name = (none, r) := by
        rw [Registry.remove, hi]
      have htarget : r.get? name = none := lookup_eq_none hnot
      have hselected : r.view.selected ≠ some name := fun hsel => hnot (mem_of_selected hsel)
      rw [hremove]
      refine ⟨?_, h, view_eq ?_ ?_ ?_⟩
      · show none = (r.get? name).map (name, ·)
        rw [htarget]
        rfl
      · exact (List.erase_of_not_mem hnot).symm
      · show r.get? = Function.update r.get? name none
        rw [← htarget, Function.update_eq_self]
      · rw [← selected_view]
        exact (if_neg hselected).symm

/-- THE STEP. -/
theorem Sound.perform (h : r.Sound) (request : RegistryRequest α) :
    (r.perform request).1 = (r.view.perform request).1 ∧ (r.perform request).2.Sound ∧
      (r.perform request).2.view = (r.view.perform request).2 := by
  cases request with
  | insert name x =>
      obtain ⟨hanswer, hrest⟩ := h.insert name x
      exact ⟨congrArg RegistryAnswer.replaced hanswer, hrest⟩
  | remove name =>
      obtain ⟨hanswer, hrest⟩ := h.remove name
      exact ⟨congrArg RegistryAnswer.removed hanswer, hrest⟩
  | select name =>
      obtain ⟨hanswer, hrest⟩ := h.select name
      exact ⟨congrArg RegistryAnswer.selected hanswer, hrest⟩

/-! ## The run -/

/-- THE RUN. -/
theorem Sound.performAll (h : r.Sound) (requests : List (RegistryRequest α)) :
    (performAll Registry.perform r requests).1 =
        (performAll Directory.perform r.view requests).1 ∧
      (performAll Registry.perform r requests).2.Sound ∧
      (performAll Registry.perform r requests).2.view =
        (performAll Directory.perform r.view requests).2 := by
  induction requests generalizing r with
  | nil => exact ⟨rfl, h, rfl⟩
  | cons request rest ih =>
      obtain ⟨hanswer, hsound, hview⟩ := h.perform request
      obtain ⟨hanswers, hrest⟩ := ih hsound
      rw [hview] at hanswers hrest
      exact ⟨congrArg₂ List.cons hanswer hanswers, hrest⟩

/-! ## Access -/

/-- Access shows an entry, and what the directory becomes once something is stored there. -/
def Access.view (a : Access α) : String × α × (α → Directory α) :=
  (a.name, a.value, fun y => (a.store y).view)

/-- Access to an entry shows it, and stores into it alone. -/
theorem Sound.access (h : r.Sound) (hs : Stands r i before name x after) :
    (r.access? i).map Access.view = some (name, x, r.view.store name) := by
  rw [access?, hs.entry]
  show some (name, x, _) = _
  congr 3
  funext y
  exact (h.set hs y).2

/-- Access by name leads to the entry of that name. -/
theorem Sound.accessNamed (h : r.Sound) (name : String) :
    (r.accessNamed? name).map Access.view =
      (r.view.target name).map fun x => (name, x, r.view.store name) := by
  rw [accessNamed?]
  cases hi : r.position? name with
  | some i =>
      obtain ⟨before, x, after, hs⟩ := h.stands_of_position hi
      have htarget : r.view.target name = some x := by
        show r.get? name = some x
        rw [hs.get?, Function.update_self]
      rw [htarget]
      exact h.access hs
  | none =>
      have htarget : r.view.target name = none := lookup_eq_none (not_mem_of_position hi)
      rw [htarget]
      rfl

/-- What is selected is the entry at the position that is kept, or nothing. -/
theorem Sound.selected_cases (h : r.Sound) :
    (r.current = none ∧ r.view.selected? = none) ∨
      ∃ i before name x after, r.current = some i ∧ Stands r i before name x after ∧
        r.view.selected? = some (name, x) := by
  cases hc : r.current with
  | none =>
      refine .inl ⟨rfl, ?_⟩
      rw [Directory.selected?, selected_view, hc]
      rfl
  | some i =>
      obtain ⟨before, name, x, after, hs⟩ := h.stands (h.current i hc)
      refine .inr ⟨i, before, name, x, after, rfl, hs, ?_⟩
      have hname : r.names[i]? = some name := by
        rw [names, List.getElem?_map, hs.entry]
        rfl
      have htarget : r.view.target name = some x := by
        show r.get? name = some x
        rw [hs.get?, Function.update_self]
      rw [Directory.selected?, selected_view, hc, Option.bind_some, hname, Option.bind_some,
        htarget]
      rfl

/-- What is selected is the same on either side, ... -/
theorem Sound.selected (h : r.Sound) : r.selected? = r.view.selected? := by
  obtain ⟨hc, hselected⟩ | ⟨i, before, name, x, after, hc, hs, hselected⟩ := h.selected_cases
  · rw [hselected, selected?, hc]
    rfl
  · rw [hselected, selected?, hc]
    exact hs.entry

/-- ... and so is what access to it shows and stores. -/
theorem Sound.accessSelected (h : r.Sound) :
    r.accessSelected?.map Access.view =
      r.view.selected?.map fun e => (e.1, e.2, r.view.store e.1) := by
  obtain ⟨hc, hselected⟩ | ⟨i, before, name, x, after, hc, hs, hselected⟩ := h.selected_cases
  · rw [hselected, accessSelected?, hc]
    rfl
  · rw [hselected, accessSelected?, hc]
    exact h.access hs

/-- A change under one name leaves the entries of all others. -/
theorem map_others {entries : List (String × α)} (f : α → α) (h : name ∉ entries.map (·.1)) :
    (entries.map fun e => if e.1 = name then (e.1, f e.2) else e) = entries := by
  have hid : (entries.map fun e => if e.1 = name then (e.1, f e.2) else e) =
      entries.map fun e => e :=
    List.map_congr_left fun e he => if_neg fun heq : e.1 = name =>
      h (heq ▸ List.mem_map_of_mem he)
  exact hid.trans (List.map_id' _)

/-- What is registered under a name is changed through access to it. -/
theorem Sound.modify (h : r.Sound) (name : String) (f : α → α) :
    r.modify name f =
      ((r.accessNamed? name).map fun a => a.store (f a.value)).getD r := by
  cases hi : r.position? name with
  | some i =>
      obtain ⟨before, x, after, hs⟩ := h.stands_of_position hi
      have haccess : ((r.accessNamed? name).map fun a => a.store (f a.value)) =
          some { r with entries := r.entries.set i (name, f x) } := by
        rw [accessNamed?, hi, Option.bind_some, access?, hs.entry]
        rfl
      have hset : r.entries.set i (name, f x) = before ++ (name, f x) :: after :=
        (hs.set (f x)).entries
      rw [haccess, Option.getD_some, Registry.modify, hset, hs.entries, List.map_append,
        List.map_cons, map_others f hs.alone.1, map_others f hs.alone.2, if_pos rfl]
  | none =>
      rw [accessNamed?, hi, Registry.modify, map_others f (not_mem_of_position hi)]
      rfl

/-- Nothing is registered, and nothing selected. -/
theorem Sound.empty : ({} : Registry α).Sound :=
  ⟨List.nodup_nil, nofun⟩

end Registry

/-- A REGISTRY IS A DIRECTORY.  Whatever is asked of an empty registry, names stay distinct, the
    selection is one of the entries, and answers, look-ups and access are those of the directory
    of which the same was asked. -/
theorem registry_is_a_directory {α : Type} (requests : List (RegistryRequest α)) :
    let (answers, r) := performAll Registry.perform ({} : Registry α) requests
    let (expected, d) := performAll Directory.perform ({} : Directory α) requests
    answers = expected ∧
      r.names.Nodup ∧
      (r.current = none ∨ ∃ i, r.current = some i ∧ i < r.size) ∧
      r.view = d ∧
      (∀ name, r.get? name = d.target name) ∧
      r.selected? = d.selected? ∧
      (∀ name, (r.accessNamed? name).map Registry.Access.view =
        (d.target name).map fun x => (name, x, d.store name)) ∧
      r.accessSelected?.map Registry.Access.view =
        d.selected?.map fun e => (e.1, e.2, d.store e.1) := by
  obtain ⟨hanswers, hsound, hview⟩ := Registry.Sound.empty.performAll requests
  refine ⟨hanswers, hsound.distinct, ?_, hview, ?_, ?_, ?_, ?_⟩
  · cases hc : (performAll Registry.perform ({} : Registry α) requests).2.current with
    | none => exact .inl rfl
    | some i => exact .inr ⟨i, rfl, hsound.current i hc⟩
  · exact fun name => congrFun (congrArg Directory.target hview) name
  · exact hview ▸ hsound.selected
  · exact fun name => hview ▸ hsound.accessNamed name
  · exact hview ▸ hsound.accessSelected

/-- An earlier entry goes, and the selection stays. -/
example :
    let r : Registry Nat := { entries := [("a", 1), ("b", 2), ("c", 3)], current := some 2 }
    (r.remove "a").2.selected? = some ("c", 3) ∧
      ((r.remove "a").2.remove "c").2.selected? = none := by
  decide

end DebugLink
