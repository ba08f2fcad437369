/-!
# Maps from names

Values by name, as a list in ascending order of the names with one value for each name.

## Main definitions

* `NameMap` — the list; `NameMap.insert`, `NameMap.ofList`, `NameMap.find?`.
-/

namespace Bindery

/-- Values by name, in ascending order of the names. -/
abbrev NameMap (α : Type) := List (String × α)

namespace NameMap

variable {α : Type}

/-- Gives a name a value, in place of the one it had. -/
def insert (name : String) (a : α) : NameMap α → NameMap α
  | [] => [(name, a)]
  | (n, b) :: rest =>
    if name < n then (name, a) :: (n, b) :: rest
    else if name = n then (name, a) :: rest
    else (n, b) :: insert name a rest

/-- The map given by a list of pairs; of two pairs for one name the later counts. -/
def ofList (pairs : List (String × α)) : NameMap α :=
  pairs.foldl (fun m p => insert p.1 p.2 m) []

/-- The value of a name. -/
def find? (m : NameMap α) (name : String) : Option α := m.lookup name

/-- The names, ascending. -/
def names (m : NameMap α) : List String := m.map (·.1)

/-- The values in the order of their names. -/
def values (m : NameMap α) : List α := m.map (·.2)

end NameMap

end Bindery
