import Bindery.Decimal
import Bindery.Json.Basic
import Bindery.Toml.Number

/-!
# Dates and times of TOML

A moment is a date, a time of day, or both, and then it may also have a distance to universal time.
The seconds of a time may be left out.

## Main definitions

* `Moment`, `Moment.text` — moments and how they are usually written.
* `moment?` — the moment that a text stands for.
-/

namespace Bindery.Toml

/-- A day of the calendar. -/
structure Day where
  year : Nat
  month : Nat
  day : Nat
  deriving DecidableEq, Repr, Inhabited

/-- A time of day. -/
structure TimeOfDay where
  hour : Nat
  minute : Nat
  second : Nat := 0
  /-- The digits of the fraction of a second. -/
  fraction : List Char := []
  deriving DecidableEq, Repr, Inhabited

/-- The distance of a local time to universal time. -/
inductive Offset
  /-- The time is universal. -/
  | universal
  /-- The time is ahead by some minutes. -/
  | ahead (minutes : Int)
  deriving DecidableEq, Repr, Inhabited

/-- A date, a time of day, and the distance to universal time; not all of them have to be there. -/
structure Moment where
  day : Option Day := none
  time : Option TimeOfDay := none
  offset : Option Offset := none
  deriving DecidableEq, Repr, Inhabited

/-! ### Writing -/

/-- A number with zeros in front of it. -/
def padded (width n : Nat) : String :=
  let ds := toString n
  String.ofList (List.replicate (width - ds.length) '0') ++ ds

/-- The usual form of a date. -/
def Day.text (d : Day) : String :=
  padded 4 d.year ++ "-" ++ padded 2 d.month ++ "-" ++ padded 2 d.day

/-- The digits of a fraction of a second: nine at most, and no zeros at the end. -/
def fractionText (ds : List Char) : String :=
  match ((ds.take 9).reverse.dropWhile (· == '0')).reverse with
  | [] => ""
  | ds => "." ++ String.ofList ds

/-- The usual form of a time of day. -/
def TimeOfDay.text (t : TimeOfDay) : String :=
  padded 2 t.hour ++ ":" ++ padded 2 t.minute ++ ":" ++ padded 2 t.second ++
    fractionText t.fraction

/-- The usual form of a distance to universal time. -/
def Offset.text : Offset → String
  | universal => "Z"
  | ahead minutes =>
    let n := minutes.natAbs
    (if minutes < 0 then "-" else "+") ++ padded 2 (n / 60) ++ ":" ++ padded 2 (n % 60)

/-- The usual form of a moment. -/
def Moment.text (m : Moment) : String :=
  let link := if m.day.isSome && m.time.isSome then "T" else ""
  (m.day.map Day.text).getD "" ++ link ++ (m.time.map TimeOfDay.text).getD "" ++
    (m.offset.map Offset.text).getD ""

/-- A moment as a table that holds its text. -/
def Moment.toJson (m : Moment) : Json := .obj [("datetime", .str m.text)]

/-! ### Reading -/

/-- The number of days of a month. -/
def daysIn (year month : Nat) : Nat :=
  if month == 2 then
    if year % 4 == 0 && (year % 100 != 0 || year % 400 == 0) then 29 else 28
  else if [4, 6, 9, 11].contains month then 30
  else 31

/-- Reads a fixed number of digits. -/
def digits (count : Nat) (s : List Char) : Option (Nat × List Char) :=
  let ds := s.take count
  if ds.length == count && ds.all Char.isDigit then
    some (Decimal.digitsValue ds, s.drop count)
  else none

/-- Reads a fixed character. -/
def mark (c : Char) : List Char → Option (List Char)
  | d :: rest => if c == d then some rest else none
  | [] => none

/-- Reads a date. -/
def day (s : List Char) : Option (Day × List Char) := do
  let (year, s) ← digits 4 s
  let s ← mark '-' s
  let (month, s) ← digits 2 s
  let s ← mark '-' s
  let (day, s) ← digits 2 s
  if 1 ≤ month && month ≤ 12 && 1 ≤ day && day ≤ daysIn year month then
    return (⟨year, month, day⟩, s)
  else none

/-- Reads the fraction of a second. -/
def secondFraction (s : List Char) : Option (List Char × List Char) :=
  match s.span Char.isDigit with
  | ([], _) => none
  | r => some r

/-- Reads a second with a fraction or without. -/
def second (s : List Char) : Option ((Nat × List Char) × List Char) := do
  let (n, s) ← digits 2 s
  let (fraction, s) ← takeBehind? (· == '.') secondFraction [] s
  return ((n, fraction), s)

/-- Reads a time of day; a minute may have one second more. -/
def timeOfDay (s : List Char) : Option (TimeOfDay × List Char) := do
  let (hour, s) ← digits 2 s
  let s ← mark ':' s
  let (minute, s) ← digits 2 s
  let ((second, fraction), s) ← takeBehind? (· == ':') second (0, []) s
  if hour ≤ 23 && minute ≤ 59 && second ≤ 60 then
    return ({ hour, minute, second, fraction }, s)
  else none

/-- The distance to universal time that makes up a whole text. -/
def offset? (s : List Char) : Option (Option Offset) :=
  match s with
  | [] => some none
  | ['Z'] | ['z'] => some (some .universal)
  | _ => do
    let (sign, s) := splitSign s
    let sign ← sign
    let (hour, s) ← digits 2 s
    let s ← mark ':' s
    let (minute, s) ← digits 2 s
    if s.isEmpty && hour ≤ 23 && minute ≤ 59 then
      let minutes : Int := hour * 60 + minute
      return some (.ahead (if sign == '-' then -minutes else minutes))
    else none

/-- The moment that makes up a whole text. -/
def moment? (s : List Char) : Option Moment :=
  match day s with
  | some (d, []) => some { day := some d }
  | some (d, c :: rest) => do
    if c != 'T' && c != 't' && c != ' ' then none
    else
      let (t, rest) ← timeOfDay rest
      return { day := some d, time := some t, offset := ← offset? rest }
  | none =>
    match timeOfDay s with
    | some (t, []) => some { time := some t }
    | _ => none

end Bindery.Toml
