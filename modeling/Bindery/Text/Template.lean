import Bindery.Text.Blank
import Bindery.Text.Lines

/-!
# Templates

A template is a text with references to variables, written `$NAME` or in braces.  A variable is a
scalar, which replaces its references inside a line, or a block, which replaces a line that holds
nothing but one reference; every line of the block takes the indentation of that line.  A line
that refers to an empty block or to no variable at all disappears.

After the replacement, white space is put in order: no line ends in blanks, the text begins with
no blank line, and neither two blank lines nor a blank line at the beginning or end of a braced
body remain.

## Main definitions

* `Value`, `Vars` — the variables.
* `expand` — the replacement inside one line, from left to right and in one pass.
* `tidy` — the white space rules.
* `substitute` — the whole of it; `Vars.fill` is the same on strings.
* `indent` — a text some levels further in.
-/

namespace Bindery.Text

/-- What a variable stands for. -/
inductive Value
  | scalar (text : List Char)
  | block (text : List Char)
  deriving DecidableEq, Repr, Inhabited

/-- The text of a variable. -/
def Value.text : Value → List Char
  | scalar t | block t => t

/-- Variables with their values; of two values for one name the first counts. -/
abbrev Vars := List (List Char × Value)

/-! ### References -/

/-- A letter of the ASCII alphabet or an underscore. -/
def isNameStart (c : Char) : Bool := c.isAlpha || c == '_'

/-- A letter or digit of ASCII or an underscore. -/
def isNameChar (c : Char) : Bool := c.isAlphanum || c == '_'

/-- A name: letters, digits and underscores, with no digit in front. -/
def isName : List Char → Bool
  | [] => false
  | c :: rest => isNameStart c && rest.all isNameChar

/-- The name in a text that holds one reference and nothing else. -/
def soleReference? : List Char → Option (List Char)
  | '$' :: '\x7b' :: rest =>
    match rest.getLast? with
    | some '\x7d' => if isName rest.dropLast then some rest.dropLast else none
    | _ => none
  | '$' :: name => if isName name then some name else none
  | _ => none

/-- The name that a text begins with, in braces or as long as possible, and how many characters it
takes.  What comes before is a dollar sign. -/
def leadingName? : List Char → Option (List Char × Nat)
  | '\x7b' :: rest =>
    let name := rest.takeWhile (· != '\x7d')
    if name.length < rest.length && isName name then some (name, name.length + 2) else none
  | s =>
    let name := s.takeWhile isNameChar
    if isName name then some (name, name.length) else none

/-- The text of a variable; a variable without a value has an empty one. -/
def Vars.text (vars : Vars) (name : List Char) : List Char :=
  match vars.lookup name with
  | some v => v.text
  | none => []

/-- The text with its references replaced.  `skip` counts the characters that still belong to the
last reference. -/
def expandFrom (vars : Vars) : Nat → List Char → List Char
  | _, [] => []
  | skip + 1, _ :: rest => expandFrom vars skip rest
  | 0, c :: rest =>
    if c = '$' then
      match leadingName? rest with
      | some (name, taken) => vars.text name ++ expandFrom vars taken rest
      | none => c :: expandFrom vars 0 rest
    else c :: expandFrom vars 0 rest

/-- A line with its references replaced. -/
def expand (vars : Vars) (line : List Char) : List Char := expandFrom vars 0 line

/-- What takes the place of a line. -/
def expandLine (vars : Vars) (line : List Char) : List (List Char) :=
  match soleReference? (trim line) with
  | some name =>
    match vars.lookup name with
    | some (.block []) => []
    | some (.block text) => (splitLines text).map (indentation line ++ ·)
    | some (.scalar _) => [expand vars line]
    | none => []
  | none => [expand vars line]

/-! ### White space -/

/-- A line ends in an opening brace. -/
def endsOpen (line : List Char) : Bool := line.getLast? == some '\x7b'

/-- The first character of a line that is not blank is a closing brace. -/
def startsClosed (line : List Char) : Bool := (trimStart line).head? == some '\x7d'

/-- Puts one more line, without blanks at its end, behind the lines so far, latest first. -/
def tidyStep (before : List (List Char)) (line : List Char) : List (List Char) :=
  let line := trimEnd line
  match before with
  | [] => if line.isEmpty then [] else [line]
  | prev :: rest =>
    if line.isEmpty && (prev.isEmpty || endsOpen prev) then before
    else if startsClosed line && prev.isEmpty then line :: rest
    else line :: before

/-- The lines with white space in order. -/
def tidyLines (lines : List (List Char)) : List (List Char) := (lines.foldl tidyStep []).reverse

/-- The text with white space in order. -/
def tidy (text : List Char) : List Char := joinLines (tidyLines (splitLines text))

/-- A template with its variables replaced and white space in order. -/
def substitute (vars : Vars) (template : List Char) : List Char :=
  tidy (joinLines ((splitLines template).flatMap (expandLine vars)))

/-! ### Strings -/

/-- A scalar variable. -/
def scalar (name text : String) : List Char × Value := (name.toList, .scalar text.toList)

/-- A block variable. -/
def block (name text : String) : List Char × Value := (name.toList, .block text.toList)

/-- A template with these variables replaced. -/
def Vars.fill (vars : Vars) (template : String) : String :=
  String.ofList (substitute vars template.toList)

/-- The indentation of one level. -/
def indentUnit : List Char := [' ', ' ', ' ', ' ']

/-- A text some levels further in; empty lines stay empty. -/
def indent (level : Nat) (text : String) : String :=
  let margin := (List.replicate level indentUnit).flatten
  String.ofList <| joinLines <| (splitLines text.toList).map fun line =>
    if line.isEmpty then [] else margin ++ line

end Bindery.Text
