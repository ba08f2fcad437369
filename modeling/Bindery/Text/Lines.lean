/-!
# Lines

A text with n line feeds has n + 1 lines; the last one may be empty.

## Main definitions

* `splitLines`, `joinLines` — a text as the list of its lines, and back.
* `textLines` — the lines of a file: a line feed, or a carriage return and a line feed, ends a line.
-/

namespace Bindery.Text

/-- The parts of a text between its line feeds. -/
def splitLines : List Char → List (List Char)
  | [] => [[]]
  | c :: rest =>
    if c = '\n' then [] :: splitLines rest
    else
      match splitLines rest with
      | [] => [[c]]
      | line :: lines => (c :: line) :: lines

/-- A text from its lines, with line feeds between them. -/
def joinLines : List (List Char) → List Char
  | [] => []
  | [line] => line
  | line :: lines => line ++ '\n' :: joinLines lines

theorem splitLines_ne_nil (s : List Char) : splitLines s ≠ [] := by
  cases s with
  | nil => simp [splitLines]
  | cons c rest => simp only [splitLines]; split <;> (try split) <;> simp

theorem joinLines_cons {line : List Char} {lines : List (List Char)} (h : lines ≠ []) :
    joinLines (line :: lines) = line ++ '\n' :: joinLines lines := by
  cases lines with
  | nil => exact absurd rfl h
  | cons _ _ => rfl

theorem joinLines_splitLines (s : List Char) : joinLines (splitLines s) = s := by
  induction s with
  | nil => rfl
  | cons c rest ih =>
    simp only [splitLines]
    split
    · next h => rw [joinLines_cons (splitLines_ne_nil rest), ih, h]; rfl
    · split
      · next h => exact absurd h (splitLines_ne_nil rest)
      · next line lines h =>
        rw [h] at ih
        cases lines with
        | nil => simpa [joinLines] using ih
        | cons l ls => simp only [joinLines, List.cons_append] at ih ⊢; rw [ih]

/-- A line without the carriage return it ends with. -/
def dropReturn (line : List Char) : List Char :=
  match line.getLast? with
  | some '\r' => line.dropLast
  | _ => line

/-- The lines of a file without what ends them.  A line that ends the file without a line feed
keeps its carriage return, and an empty one does not count. -/
def textLines (s : List Char) : List (List Char) :=
  let lines := splitLines s
  let last := lines.getLast?.getD []
  lines.dropLast.map dropReturn ++ if last.isEmpty then [] else [last]

/-- A string from its lines. -/
def unlines (lines : List String) : String := "\n".intercalate lines

end Bindery.Text
