import Bindery.Toml.Scalar
import Bindery.Toml.Tables
import Bindery.Toml.Text

/-!
# Reading TOML

A reader for TOML 1.1.  The result is a JSON value, because the two formats hold the same data,
dates apart.

## Main definitions

* `value` — reads one value from the front of a text.
* `Toml.read?` — reads a document.
-/

namespace Bindery.Toml

/-- How deep arrays and tables may be nested within one value. -/
def nestingLimit : Nat := 80

mutual

/-- Reads one value.  `depth` counts the arrays and inline tables that may still be opened. -/
def value : Nat → Nat → List Char → Option (Json × List Char)
  | 0, _, _ => none
  | fuel + 1, depth, s =>
    match s with
    | '"' :: _ | '\'' :: _ => do
      let (cs, rest) ← string s
      return (.str (String.ofList cs), rest)
    | '[' :: rest => do
      if depth = 0 then none
      else
        let (items, rest) ← items fuel (depth - 1) rest
        return (.arr items, rest)
    | '\x7b' :: rest => do
      if depth = 0 then none
      else
        let (entries, rest) ← inlineEntries fuel (depth - 1) [] rest
        return (.obj (Item.entriesToJson entries), rest)
    | _ => do
      let (cs, rest) := scalarText s
      return (← scalar? cs, rest)

/-- Reads the items of an array up to its closing bracket. -/
def items : Nat → Nat → List Char → Option (List Json × List Char)
  | 0, _, _ => none
  | fuel + 1, depth, s =>
    match skipFiller (s.length + 1) s with
    | ']' :: rest => some ([], rest)
    | s => do
      let (j, rest) ← value fuel depth s
      match skipFiller (rest.length + 1) rest with
      | ',' :: rest =>
        let (js, rest) ← items fuel depth rest
        return (j :: js, rest)
      | ']' :: rest => return ([j], rest)
      | _ => none

/-- Reads the entries of an inline table up to its closing brace, behind those read before. -/
def inlineEntries : Nat → Nat → Entries → List Char → Option (Entries × List Char)
  | 0, _, _, _ => none
  | fuel + 1, depth, entries, s =>
    match skipFiller (s.length + 1) s with
    | '\x7d' :: rest => some (entries, rest)
    | s => do
      let (path, rest) ← key s
      match skipFiller (rest.length + 1) rest with
      | '=' :: rest =>
        let (j, rest) ← value fuel depth (skipFiller (rest.length + 1) rest)
        let entries ← assignUnder [] path (.value j) entries
        match skipFiller (rest.length + 1) rest with
        | ',' :: rest => inlineEntries fuel depth entries rest
        | '\x7d' :: rest => return (entries, rest)
        | _ => none
      | _ => none

end

/-- A document that is being read. -/
structure Document where
  entries : Entries := []
  /-- The path of the header under which the next lines stand. -/
  path : List String := []
  deriving Inhabited

/-- What a header does to a document. -/
def Document.header (d : Document) (isElement : Bool) (path : List String) : Option Document := do
  let last ← path.getLast?
  let add := if isElement then openElement last else openTable last
  return { entries := ← under add path.dropLast d.entries, path }

/-- What a line with a key and a value does to a document. -/
def Document.assign (d : Document) (key : List String) (j : Json) : Option Document := do
  return { d with entries := ← assignUnder d.path key (.value j) d.entries }

/-- Reads one header or one key with its value. -/
def statement (d : Document) (s : List Char) : Option (Document × List Char) :=
  match s with
  | '[' :: '[' :: rest => do
    let (path, rest) ← key rest
    match rest with
    | ']' :: ']' :: rest => return (← d.header true path, rest)
    | _ => none
  | '[' :: rest => do
    let (path, rest) ← key rest
    match rest with
    | ']' :: rest => return (← d.header false path, rest)
    | _ => none
  | _ => do
    let (path, rest) ← key s
    match rest with
    | '=' :: rest =>
      let (j, rest) ← value (rest.length + 1) nestingLimit (skipBlank rest)
      return (← d.assign path j, rest)
    | _ => none

/-- Reads the lines of a document; at most `fuel` statements. -/
def statements : Nat → Document → List Char → Option Document
  | 0, _, _ => none
  | fuel + 1, d, s =>
    match skipFiller (s.length + 1) s with
    | [] => some d
    | s => do
      let (d, rest) ← statement d s
      statements fuel d (← skipLineEnd rest)

/-- The text without the byte order mark it may begin with. -/
def skipMark : List Char → List Char
  | '\ufeff' :: rest => rest
  | s => s

/-- The value of a document. -/
def read? (text : String) : Option Json :=
  let s := skipMark text.toList
  (statements (s.length + 1) {} s).map fun d => .obj (Item.entriesToJson d.entries)

end Bindery.Toml
