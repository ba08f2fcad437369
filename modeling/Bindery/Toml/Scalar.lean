import Bindery.Toml.Moment
import Bindery.Toml.Number

/-!
# Scalars of TOML

Truth values, numbers, dates and times are written without quotes.  They are read as a whole: the
text up to the next blank or mark has to be one of them.

## Main definitions

* `scalarText` — how far a text without quotes reaches.
* `scalar?` — the value of a text.
-/

namespace Bindery.Toml

/-- The text names a special number. -/
def isSpecialNumber (s : List Char) : Bool :=
  let (_, body) := splitSign s
  body == ['i', 'n', 'f'] || body == ['n', 'a', 'n']

/-- The value of a number, or of a date or time.  What stands behind the first digits tells which
of them it is. -/
def numberOrMoment? (s : List Char) : Option Json :=
  let (_, body) := splitSign s
  match body.dropWhile Char.isDigit with
  | [] => if body.isEmpty then none else integer? s
  | c :: rest =>
    if c == '-' || c == ':' then (moment? s).map Moment.toJson
    else if (c :: rest).any [' '].contains then none
    else if (c :: rest).any ['.', 'e', 'E'].contains then float? s
    else if c == '_' then integer? s
    else none

/-- The value of a text without quotes. -/
def scalar? (s : List Char) : Option Json :=
  match s with
  | ['t', 'r', 'u', 'e'] => some (.bool true)
  | ['f', 'a', 'l', 's', 'e'] => some (.bool false)
  | '0' :: mark :: ds =>
    match base? mark with
    | some base => basedInteger? base ds
    | none => numberOrMoment? s
  | _ => if isSpecialNumber s then some (.decimal (String.ofList s)) else numberOrMoment? s

/-- A character that ends a text without quotes. -/
def endsScalar (c : Char) : Bool :=
  [' ', '\t', '\n', '\r', '#', ',', '=', '[', ']', '\x7b', '\x7d'].contains c

/-- The text without quotes at the front of a text.  A blank may stand between a date and a time. -/
def scalarText (s : List Char) : List Char × List Char :=
  match s.span fun c => !endsScalar c with
  | (front, ' ' :: d :: rest) =>
    if d.isDigit && (day front).any (·.2.isEmpty) then
      let (more, rest) := (d :: rest).span fun c => !endsScalar c
      (front ++ ' ' :: more, rest)
    else (front, ' ' :: d :: rest)
  | r => r

end Bindery.Toml
