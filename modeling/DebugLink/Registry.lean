import DebugLink.Note

/-!
# Registry

The targets that the host knows, by name and in the order in which they came, and the one that
is selected. The selection is a position; it moves along when an earlier entry goes.
-/

namespace DebugLink

/-- Things by name, one of which may be selected. -/
structure Registry (α : Type) where
  entries : List (String × α) := []
  /-- Position of the selected entry. -/
  current : Option Nat := none

namespace Registry

variable {α : Type} (r : Registry α)

/-- Names in order of registration. -/
def names : List String :=
  r.entries.map (·.1)

/-- Number of entries. -/
def size : Nat :=
  r.entries.length

/-- Position of a name. -/
def position? (name : String) : Option Nat :=
  r.entries.findIdx? (·.1 = name)

/-- What is registered under a name. -/
def get? (name : String) : Option α :=
  (r.entries.find? (·.1 = name)).map (·.2)

/-- The selected entry. -/
def selected? : Option (String × α) :=
  r.current.bind fun i => r.entries[i]?

/-- Registers `x`. What had the name before is replaced where it stood, and handed back; a new
    name comes last, and is selected if nothing else is. -/
def insert (name : String) (x : α) : Option α × Registry α :=
  match r.position? name with
  | some i =>
    (r.entries[i]?.map (·.2), { r with entries := r.entries.set i (name, x) })
  | none =>
    (none,
      { entries := r.entries ++ [(name, x)]
        current := r.current <|> some r.entries.length })

/-- What an insertion under this name reports. -/
def insertNote (name : String) : Note :=
  if (r.position? name).isSome then .replacingTarget name else .addingTarget name

/-- Takes an entry out and hands it back. If it was selected, nothing is selected any more. -/
def remove (name : String) : Option (String × α) × Registry α :=
  match r.position? name with
  | none => (none, r)
  | some i =>
    (r.entries[i]?,
      { entries := r.entries.eraseIdx i
        current :=
          match r.current with
          | none => none
          | some c => if c = i then none else if i < c then some (c - 1) else some c })

/-- Selects an entry by name; answers whether there is one. -/
def select (name : String) : Bool × Registry α :=
  match r.position? name with
  | some i => (true, { r with current := some i })
  | none => (false, r)

/-- What a selection of this name reports. -/
def selectNotes (name : String) : List Note :=
  if (r.position? name).isSome then [] else [.noSuchTarget name]

/-- Changes what is registered under a name. -/
def modify (name : String) (f : α → α) : Registry α :=
  { r with entries := r.entries.map fun e => if e.1 = name then (e.1, f e.2) else e }

/-- Access to an entry, for as long as nothing else is done to the registry. -/
structure Access (α : Type) where
  name : String
  value : α
  /-- What the registry becomes once something else is stored there under the same name. -/
  store : α → Registry α

/-- Access to the entry at a position. -/
def access? (i : Nat) : Option (Access α) :=
  r.entries[i]?.map fun e =>
    { name := e.1
      value := e.2
      store := fun x => { r with entries := r.entries.set i (e.1, x) } }

/-- Access by name. -/
def accessNamed? (name : String) : Option (Access α) :=
  (r.position? name).bind r.access?

/-- Access to the selected entry. -/
def accessSelected? : Option (Access α) :=
  r.current.bind r.access?

end Registry

end DebugLink
