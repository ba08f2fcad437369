import Bindery.Json.Basic

/-!
# Tables of TOML

A TOML document is a table that its lines build up.  A table may be opened by a header, may be
implied by the header of a table in it, or may be made by dotted keys, and how it came about decides
what may still be added to it: a header opens a table once, and dotted keys add only to tables that
dotted keys have made.

## Main definitions

* `Item` — what stands under a key; `Item.toJson` forgets how it came about.
* `openTable`, `openElement` — what the two sorts of headers do.
* `assign`, `assignUnder` — what a line with a key and a value does.
-/

namespace Bindery.Toml

/-- How a table came about. -/
inductive Origin
  /-- By a header of its own. -/
  | header
  /-- By the header of a table in it. -/
  | implied
  /-- By a dotted key. -/
  | dotted
  deriving DecidableEq, Repr, Inhabited

/-- What stands under a key. -/
inductive Item
  /-- A value that nothing can be added to. -/
  | value (j : Json)
  | table (origin : Origin) (entries : List (String × Item))
  /-- An array of tables, to which headers add. -/
  | tables (elements : List Item)
  deriving Inhabited

/-- The entries of a table. -/
abbrev Entries := List (String × Item)

namespace Item

mutual

/-- The value of an item. -/
def toJson : Item → Json
  | value j => j
  | table _ entries => .obj (entriesToJson entries)
  | tables elements => .arr (elementsToJson elements)

/-- The values of the elements of an array. -/
def elementsToJson : List Item → List Json
  | [] => []
  | i :: rest => i.toJson :: elementsToJson rest

/-- The values of the entries of a table. -/
def entriesToJson : List (String × Item) → List (String × Json)
  | [] => []
  | (k, i) :: rest => (k, i.toJson) :: entriesToJson rest

end

end Item

/-- Gives a key what a function makes of what it had. -/
def alter (key : String) (f : Option Item → Option Item) (entries : Entries) : Option Entries :=
  match entries with
  | [] => (f none).map fun i => [(key, i)]
  | (k, i) :: rest =>
    if k = key then (f (some i)).map fun i => (k, i) :: rest
    else (alter key f rest).map ((k, i) :: ·)

/-- Changes the entries of a table, or of the last element of an array of tables.  Nothing can be
added to values. -/
def alterEntries (f : Entries → Option Entries) : Item → Option Item
  | .table origin entries => (f entries).map (.table origin)
  | .tables elements =>
    match elements.getLast? with
    | some (.table origin entries) =>
      (f entries).map fun es => .tables (elements.dropLast ++ [.table origin es])
    | _ => none
  | .value _ => none

/-- Changes the entries of a table under a path of headers; missing tables are implied. -/
def under (f : Entries → Option Entries) : List String → Entries → Option Entries
  | [], entries => f entries
  | k :: path, entries =>
    alter k (fun i => alterEntries (under f path) (i.getD (.table .implied []))) entries

/-- A header opens a table: a new one, or one that has only been implied. -/
def openTable (key : String) (entries : Entries) : Option Entries :=
  alter key (fun
    | none => some (.table .header [])
    | some (.table .implied es) => some (.table .header es)
    | some _ => none) entries

/-- A header of the other sort adds a table to an array of tables. -/
def openElement (key : String) (entries : Entries) : Option Entries :=
  alter key (fun
    | none => some (.tables [.table .header []])
    | some (.tables es) => some (.tables (es ++ [.table .header []]))
    | some _ => none) entries

/-- Gives a key a value, once. -/
def assignNew (key : String) (item : Item) (entries : Entries) : Option Entries :=
  alter key (fun
    | none => some item
    | some _ => none) entries

/-- Gives a key in a table that dotted keys have reached a value. -/
def assignIn (key : String) (item : Item) : Item → Option Item
  | .table .dotted es => (assignNew key item es).map (.table .dotted)
  | _ => none

/-- The item takes dotted keys for tables in it: it has not been opened by a header. -/
def takesDotted : Item → Bool
  | .table .header _ => false
  | _ => true

/-- Gives a dotted key a value; `path` are its parts in front of the last, of which there is at
least one. -/
def assignDotted (key : String) (item : Item) : List String → Entries → Option Entries
  | [], entries => assignNew key item entries
  | [k], entries =>
    alter k (fun i => assignIn key item (i.getD (.table .dotted []))) entries
  | k :: path, entries =>
    alter k (fun i =>
      let i := i.getD (.table .dotted [])
      if takesDotted i then alterEntries (assignDotted key item path) i else none) entries

/-- Gives a key a value, in the table that the headers have reached. -/
def assignUnder (path : List String) (key : List String) (item : Item) (entries : Entries) :
    Option Entries := do
  let last ← key.getLast?
  under (assignDotted last item key.dropLast) path entries

end Bindery.Toml
