import Bindery.Text.Blank
import Bindery.Text.Find
import Bindery.Text.Lines

/-!
# Places in a manifest

An error about a manifest points at the text it is about.  The place is found again in the text of
the manifest: that of a name by the quotes around it, that of an option by the equals sign behind
it.

## Main definitions

* `Span` — a part of a text.
* `Span.ofValue?` — the place of a value.
* `Span.ofKey?` — the place of the name of a declaration.
* `Span.ofOption?` — the place of an option.
-/

namespace Bindery

open Text

/-- A part of a text, by its place and length in bytes. -/
structure Span where
  offset : Nat
  length : Nat
  deriving DecidableEq, Repr, Inhabited

/-- The first part of a text that follows `before` and is followed by `after`.  With nothing to
follow, it is the first occurrence of the part itself. -/
def Span.between? (before part after source : List Char) : Option Span :=
  (offsetOf? (before ++ part ++ after) source).map fun place =>
    ⟨place + utf8Size before, utf8Size part⟩

/-- The place of a value: where it stands in quotes, or else where its text stands. -/
def Span.ofValue? (source value : String) : Option Span :=
  let s := source.toList
  let v := value.toList
  Span.between? ['"'] v ['"'] s <|>
    if v.isEmpty then none else Span.between? [] v [] s

/-- The patterns by which the name of a declaration is found, as parts in front of the name and
behind it. -/
def keyPatterns : List (List Char × List Char) :=
  [("decls.\"".toList, "\"".toList), ("decls.'".toList, "'".toList),
   ("\"".toList, "\" =".toList), ("\"".toList, "\"=".toList)]

/-- The place of a name in the first occurrence of a pattern: the first place in the pattern where
the text of the name stands. -/
def Span.ofPattern? (name source : List Char) (pattern : List Char × List Char) : Option Span :=
  let text := pattern.1 ++ name ++ pattern.2
  (offsetOf? text source).map fun place =>
    ⟨place + (offsetOf? name text).getD 0, utf8Size name⟩

/-- The place of the name of a declaration: in a header, in front of an equals sign, or like that of
a value. -/
def Span.ofKey? (source name : String) : Option Span :=
  keyPatterns.findSome? (Span.ofPattern? name.toList source.toList) <|> Span.ofValue? source name

/-- The line gives the option a value. -/
def isOptionLine (option line : List Char) : Bool :=
  let line := trimStart line
  option.isPrefixOf line && (trimStart (line.drop option.length)).head? == some '='

/-- The place of an option in the lines from a place on; a line end counts as one byte. -/
def Span.ofOptionFrom? (option : List Char) : Nat → List (List Char) → Option Span
  | _, [] => none
  | place, line :: rest =>
    if isOptionLine option line then
      some ⟨place + utf8Size (indentation line), utf8Size option⟩
    else ofOptionFrom? option (place + utf8Size line + 1) rest

/-- The place of an option: the first line that gives it a value. -/
def Span.ofOption? (source option : String) : Option Span :=
  Span.ofOptionFrom? option.toList 0 (textLines source.toList)

end Bindery
