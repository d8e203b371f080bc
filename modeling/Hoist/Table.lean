/-!
Ordered tables from names to values. A name stands at most once in a table that was built with
`insert`; a name inserted again keeps its place.

Main statements: what is found after `insert` and after `erase` (`find?_insert`, `find?_erase`),
and the order of the names after `insert` (`names_insert`).
-/
namespace Hoist

structure Table (α : Type) where
  entries : List (String × α)
  deriving DecidableEq, Inhabited, Repr

namespace Table

variable {α : Type}

/-- The first value of a name in a list of entries. -/
def first? (name : String) : List (String × α) → Option α
  | [] => none
  | (other, value) :: rest => if other = name then some value else first? name rest

/-- Gives a name its value in a list of entries: in its place, or else at the end. -/
def put (name : String) (value : α) : List (String × α) → List (String × α)
  | [] => [(name, value)]
  | (other, old) :: rest =>
    if other = name then (name, value) :: rest else (other, old) :: put name value rest

def empty : Table α := ⟨[]⟩

def find? (table : Table α) (name : String) : Option α :=
  first? name table.entries

def contains (table : Table α) (name : String) : Bool :=
  (table.find? name).isSome

def size (table : Table α) : Nat :=
  table.entries.length

def names (table : Table α) : List String :=
  table.entries.map (·.1)

def insert (table : Table α) (name : String) (value : α) : Table α :=
  ⟨put name value table.entries⟩

def erase (table : Table α) (name : String) : Table α :=
  ⟨table.entries.filter (·.1 ≠ name)⟩

/-- The table of a list of entries; of a repeated name the last value counts. -/
def ofList (entries : List (String × α)) : Table α :=
  entries.foldl (fun table (name, value) => table.insert name value) empty

def map {β : Type} (f : α → β) (table : Table α) : Table β :=
  ⟨table.entries.map fun (name, value) => (name, f value)⟩

theorem first?_put (name other : String) (value : α) (entries : List (String × α)) :
    first? other (put name value entries) =
      if name = other then some value else first? other entries := by
  induction entries with
  | nil => simp [put, first?]
  | cons entry rest ih =>
    obtain ⟨key, old⟩ := entry
    by_cases here : key = name
    · subst here
      by_cases same : key = other <;> simp [put, first?, same]
    · by_cases same : key = other
      · subst same
        have : name ≠ key := fun eq => here eq.symm
        simp [put, first?, here, this]
      · simp [put, first?, here, same, ih]

theorem first?_filter (name other : String) (entries : List (String × α)) :
    first? other (entries.filter (·.1 ≠ name)) =
      if name = other then none else first? other entries := by
  induction entries with
  | nil => simp [first?]
  | cons entry rest ih =>
    obtain ⟨key, old⟩ := entry
    by_cases here : key = name
    · subst here
      by_cases same : key = other <;> simp_all [first?]
    · by_cases same : key = other
      · subst same
        have : name ≠ key := fun eq => here eq.symm
        simp [first?, here, this]
      · simp_all [first?]

theorem names_put (name : String) (value : α) (entries : List (String × α)) :
    (put name value entries).map (·.1) =
      if (first? name entries).isSome then entries.map (·.1)
      else entries.map (·.1) ++ [name] := by
  induction entries with
  | nil => simp [put, first?]
  | cons entry rest ih =>
    obtain ⟨key, old⟩ := entry
    by_cases here : key = name
    · simp [put, first?, here]
    · simp only [put, first?, here, ↓reduceIte, List.map_cons, ih]
      split <;> simp

@[simp] theorem find?_empty (name : String) : (empty : Table α).find? name = none := rfl

theorem find?_insert (table : Table α) (name other : String) (value : α) :
    (table.insert name value).find? other =
      if name = other then some value else table.find? other :=
  first?_put name other value table.entries

theorem find?_erase (table : Table α) (name other : String) :
    (table.erase name).find? other = if name = other then none else table.find? other :=
  first?_filter name other table.entries

/-- A name that is there already keeps its place, and a new one comes last. -/
theorem names_insert (table : Table α) (name : String) (value : α) :
    (table.insert name value).names =
      if table.contains name then table.names else table.names ++ [name] :=
  names_put name value table.entries

end Table

end Hoist
