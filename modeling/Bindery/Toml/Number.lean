import Bindery.Decimal
import Bindery.Json.Basic
import Bindery.Json.Reader

/-!
# Numbers of TOML

A number is checked in two steps.  Its shape is checked when the document is read: where signs,
points, exponents and underscores stand.  Whether it has a value matters only when somebody asks for
the value.  So a number without one becomes `Json.invalid`, which does no harm where nobody looks.
Such numbers have a letter among their digits or no digit behind the mark of their base, need more
than 64 bits, or are too large for a double.

## Main definitions

* `withoutUnderscores?` — the characters of a number between its underscores.
* `basedInteger?`, `integer?`, `float?` — the three kinds of numbers.
-/

namespace Bindery.Toml

/-! ### Parts of numbers -/

/-- A digit to a base of at most 16. -/
def isHexDigit (c : Char) : Bool := (Json.Reader.hexDigit? c).isSome

/-- The characters of a number without the underscores, of which each stands between two digits.
What stands elsewhere does not count here. -/
def withoutUnderscores? (isDigit : Char → Bool) (s : List Char) : Option (List Char) :=
  match ((String.ofList s).splitOn "_").map String.toList with
  | [] => none
  | [part] => some part
  | first :: parts =>
    let isStart (part : List Char) := part.head?.any isDigit
    let isEnd (part : List Char) := part.getLast?.any isDigit || part.length == 1
    if !first.isEmpty && parts.all isStart && (first :: parts).dropLast.all isEnd then
      some (first :: parts).flatten
    else none

/-- A sign, or none, and the rest. -/
def splitSign : List Char → Option Char × List Char
  | '+' :: rest => (some '+', rest)
  | '-' :: rest => (some '-', rest)
  | s => (none, s)

/-- The value of digits to a base, if there is one. -/
def digitsTo? (base : Nat) (ds : List Char) : Option Nat :=
  if ds.isEmpty then none
  else ds.foldlM (fun n d =>
    ((Json.Reader.hexDigit? d).filter (· < base)).map (n * base + ·)) 0

/-- A whole number that fits into 64 bits, with a sign or without. -/
def fitsWord (n : Int) : Bool := -9223372036854775808 ≤ n && n < UInt64.size

/-- The value of a whole number. -/
def integerValue (base : Nat) (negative : Bool) (ds : List Char) : Json :=
  match digitsTo? base ds with
  | some n =>
    let n : Int := if negative then -n else n
    if fitsWord n then .int n else .invalid
  | none => .invalid

/-! ### Whole numbers -/

/-- The base that a letter behind a zero stands for. -/
def base? : Char → Option Nat
  | 'x' => some 16
  | 'o' => some 8
  | 'b' => some 2
  | _ => none

/-- A whole number to a base other than ten, from behind the mark of the base. -/
def basedInteger? (base : Nat) (s : List Char) : Option Json := do
  let isDigit (c : Char) := (Json.Reader.hexDigit? c).any (· < base)
  if s.all fun c => c == '_' || isDigit c then
    return integerValue base false (← withoutUnderscores? isHexDigit s)
  else none

/-- A decimal whole number.  More than one digit do not begin with 0. -/
def integer? (s : List Char) : Option Json := do
  let (_, body) := splitSign s
  if body.head? == some '0' && body.length > 1 then none
  else
    let (sign, ds) := splitSign (← withoutUnderscores? isHexDigit s)
    return integerValue 10 (sign == some '-') ds

/-! ### Numbers with a point or an exponent -/

/-- Takes digits with underscores between them; there is at least one digit. -/
def takeDigits? (s : List Char) : Option (List Char × List Char) :=
  let (ds, rest) := s.span fun c => c.isDigit || c == '_'
  if ds.any Char.isDigit then some (ds.filter Char.isDigit, rest) else none

/-- Takes what may stand behind a mark, if the mark is there. -/
def takeBehind? {α : Type} (isMark : Char → Bool) (take : List Char → Option (α × List Char))
    (default : α) : List Char → Option (α × List Char)
  | c :: rest => if isMark c then take rest else some (default, c :: rest)
  | [] => some (default, [])

/-- Takes an exponent, which may have a sign. -/
def takeExponent? (s : List Char) : Option (Int × List Char) := do
  let (sign, rest) := splitSign s
  let (ds, rest) ← takeDigits? rest
  let n := Decimal.digitsValue ds
  return (if sign == some '-' then -n else n, rest)

/-- A number with a fraction, an exponent or both. -/
def float? (s : List Char) : Option Json := do
  let text ← withoutUnderscores? Char.isDigit s
  let (_, body) := splitSign s
  let (whole, rest) ← takeDigits? body
  if body.head? == some '0' && whole.length > 1 then none
  else
    let (fraction, rest) ← takeBehind? (· == '.') takeDigits? [] rest
    let (exponent, rest) ← takeBehind? (fun c => c == 'e' || c == 'E') takeExponent? 0 rest
    if !rest.isEmpty then none
    else
      let d : Decimal :=
        { significand := Decimal.digitsValue (whole ++ fraction)
          exponent := exponent - fraction.length }
      return if d.isFinite then .decimal (String.ofList text) else .invalid

end Bindery.Toml
