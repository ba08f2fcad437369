/-!
# Blank characters and trimming

Text is cut on the Unicode white space characters, not on the ASCII ones alone.  Everything
is defined on `List Char`, where it is structural, and lifted to `String` at the end.

## Main definitions

* `isBlank` — the Unicode property `White_Space`.
* `trimStart`, `trimEnd`, `trim` — dropping blank characters at the ends of a text.
-/

namespace Bindery.Text

/-- The closed ranges of code points with the Unicode property `White_Space`, ascending and
apart. -/
def blankRanges : List (Nat × Nat) :=
  [(0x09, 0x0D), (0x20, 0x20), (0x85, 0x85), (0xA0, 0xA0), (0x1680, 0x1680), (0x2000, 0x200A),
   (0x2028, 0x2029), (0x202F, 0x202F), (0x205F, 0x205F), (0x3000, 0x3000)]

/-- Membership of a code point in a list of closed ranges. -/
def inRanges (ranges : List (Nat × Nat)) (n : Nat) : Bool :=
  ranges.any fun r => r.1 ≤ n && n ≤ r.2

/-- White space in the sense of the Unicode property `White_Space`. -/
def isBlank (c : Char) : Bool := inRanges blankRanges c.toNat

/-- The text without the blank characters it begins with. -/
def trimStart (s : List Char) : List Char := s.dropWhile isBlank

/-- The text without the blank characters it ends with. -/
def trimEnd (s : List Char) : List Char := (s.reverse.dropWhile isBlank).reverse

/-- The text without the blank characters at either end. -/
def trim (s : List Char) : List Char := trimEnd (trimStart s)

/-- The blank characters a text begins with. -/
def indentation (s : List Char) : List Char := s.takeWhile isBlank

/-- A text of blank characters only. -/
def isAllBlank (s : List Char) : Bool := s.all isBlank

/-- A string without the blank characters at either end. -/
def trimmed (s : String) : String := String.ofList (trim s.toList)

theorem trimStart_append_indentation (s : List Char) : indentation s ++ trimStart s = s :=
  List.takeWhile_append_dropWhile

end Bindery.Text
