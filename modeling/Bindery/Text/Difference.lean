import Bindery.Text.Lines

/-!
# Differences between texts

## Main definitions

* `difference?` — the lines in which two texts differ, by number.
-/

namespace Bindery.Text

/-- A line, or a mark for one that is missing. -/
def lineText : Option (List Char) → String
  | some line => String.ofList line
  | none => "<missing>"

/-- The entry for one line number, empty if the lines agree. -/
def lineDifference (number : Nat) (expected actual : Option (List Char)) : String :=
  let e := lineText expected
  let a := lineText actual
  if e = a then "" else s!"Line {number}:\n  expected: {e}\n  actual:   {a}\n"

/-- The differences of two lists of lines, the first of which has the given number. -/
def lineDifferences (number : Nat) : List (List Char) → List (List Char) → String
  | [], [] => ""
  | e :: es, [] => lineDifference number (some e) none ++ lineDifferences (number + 1) es []
  | [], a :: as => lineDifference number none (some a) ++ lineDifferences (number + 1) [] as
  | e :: es, a :: as =>
    lineDifference number (some e) (some a) ++ lineDifferences (number + 1) es as

/-- What distinguishes two texts; `none` if they are equal. -/
def difference? (expected actual : String) : Option String :=
  if expected = actual then none
  else some ("Content mismatch:\n" ++
    lineDifferences 1 (textLines expected.toList) (textLines actual.toList))

end Bindery.Text
