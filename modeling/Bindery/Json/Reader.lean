import Bindery.Decimal
import Bindery.Json.Basic

/-!
# Reading JSON

A recursive-descent reader for JSON texts over `List Char`.  Each value takes at least one
character, so the length of the text bounds the recursion.

Nesting is limited: an array or object that is nested deeper than the limit is read for its
shape alone and becomes `Json.invalid`, as do a string with half of a surrogate pair and a number
that is too large for a double.

## Main definitions

* `Json.Reader.value` — reads one value from the front of a text.
* `Json.read?` — reads a text that holds exactly one value.
-/

namespace Bindery.Json

namespace Reader

/-- The four blank characters of JSON. -/
def isSpace (c : Char) : Bool := c == ' ' || c == '\n' || c == '\t' || c == '\r'

/-- The text without the blanks it begins with. -/
def skipSpace (s : List Char) : List Char := s.dropWhile isSpace

/-- The value of a hexadecimal digit. -/
def hexDigit? (c : Char) : Option Nat :=
  if c.isDigit then some (c.toNat - '0'.toNat)
  else if 'a' ≤ c ∧ c ≤ 'f' then some (c.toNat - 'a'.toNat + 10)
  else if 'A' ≤ c ∧ c ≤ 'F' then some (c.toNat - 'A'.toNat + 10)
  else none

/-- Reads four hexadecimal digits. -/
def hex4 : List Char → Option (Nat × List Char)
  | a :: b :: c :: d :: rest => do
    let a ← hexDigit? a
    let b ← hexDigit? b
    let c ← hexDigit? c
    let d ← hexDigit? d
    return (((a * 16 + b) * 16 + c) * 16 + d, rest)
  | _ => none

/-- The character of a one-letter escape. -/
def simpleEscape? : Char → Option Char
  | '"' => some '"'
  | '\\' => some '\\'
  | '/' => some '/'
  | 'b' => some '\x08'
  | 'f' => some '\x0c'
  | 'n' => some '\n'
  | 'r' => some '\r'
  | 't' => some '\t'
  | _ => none

/-- One item of a string: a character, or half of a surrogate pair. -/
inductive Unit16
  | char (c : Char)
  | lone
  deriving DecidableEq

/-- Reads what follows `\u`: one code unit, or a surrogate pair written as two escapes. -/
def unicodeEscape (s : List Char) : Option (Unit16 × List Char) := do
  let (n, rest) ← hex4 s
  if 0xD800 ≤ n ∧ n < 0xDC00 then
    match rest with
    | '\\' :: 'u' :: rest' =>
      let (m, rest'') ← hex4 rest'
      if 0xDC00 ≤ m ∧ m < 0xE000 then
        return (.char (Char.ofNat (0x10000 + (n - 0xD800) * 0x400 + (m - 0xDC00))), rest'')
      else return (.lone, rest)
    | _ => return (.lone, rest)
  else if 0xDC00 ≤ n ∧ n < 0xE000 then return (.lone, rest)
  else return (.char (Char.ofNat n), rest)

/-- Reads a string up to its closing quote.  The result is `none` inside if the string holds half
of a surrogate pair. -/
def stringBody : Nat → List Char → Option (Option (List Char) × List Char)
  | 0, _ => none
  | _ + 1, [] => none
  | _ + 1, '"' :: rest => some (some [], rest)
  | fuel + 1, '\\' :: 'u' :: rest => do
    let (u, rest) ← unicodeEscape rest
    let (tail, rest) ← stringBody fuel rest
    match u with
    | .char c => return (tail.map (c :: ·), rest)
    | .lone => return (none, rest)
  | fuel + 1, '\\' :: e :: rest => do
    let c ← simpleEscape? e
    let (tail, rest) ← stringBody fuel rest
    return (tail.map (c :: ·), rest)
  | fuel + 1, c :: rest =>
    if c == '\\' || c.toNat < 0x20 then none
    else do
      let (tail, rest) ← stringBody fuel rest
      return (tail.map (c :: ·), rest)

/-- Reads a dot with at least one digit behind it, or nothing. -/
def fraction : List Char → Option (List Char × List Char)
  | '.' :: rest =>
    match rest.span Char.isDigit with
    | ([], _) => none
    | r => some r
  | s => some ([], s)

/-- Reads a sign, or nothing. -/
def exponentSign : List Char → List Char × List Char
  | '+' :: rest => (['+'], rest)
  | '-' :: rest => (['-'], rest)
  | s => ([], s)

/-- Reads an exponent, or nothing: its text and its value. -/
def exponent : List Char → Option ((List Char × Int) × List Char)
  | e :: rest =>
    if e == 'e' || e == 'E' then
      let (sign, rest) := exponentSign rest
      match rest.span Char.isDigit with
      | ([], _) => none
      | (ds, rest) =>
        let n := Decimal.digitsValue ds
        some ((e :: sign ++ ds, if sign == ['-'] then -n else n), rest)
    else some (([], 0), e :: rest)
  | [] => some (([], 0), [])

/-- Reads a number.  A whole part of more than one digit does not begin with 0. -/
def number (s : List Char) : Option (Json × List Char) :=
  let (neg, s) := match s with
    | '-' :: r => (true, r)
    | r => (false, r)
  match s.span Char.isDigit with
  | ([], _) => none
  | (whole, rest) =>
    if whole.head? == some '0' && whole.length > 1 then none
    else do
      let (frac, rest) ← fraction rest
      let ((exp, power), rest) ← exponent rest
      let n := Decimal.digitsValue whole
      if !(Decimal.ofLeadingDigits whole frac power).isProductFinite then
        return (.invalid, rest)
      else if frac.isEmpty && exp.isEmpty && !(neg && n == 0) then
        return (.int (if neg then -n else n), rest)
      else
        let sign := if neg then ['-'] else []
        let point := if frac.isEmpty then [] else ['.']
        return (.decimal (String.ofList (sign ++ whole ++ point ++ frac ++ exp)), rest)

/-- The text behind a fixed word. -/
def word (w : List Char) (s : List Char) : Option (List Char) :=
  if w.isPrefixOf s then some (s.drop w.length) else none

mutual

/-- Reads one value.  `depth` counts the arrays and objects that may still be opened. -/
def value : Nat → Nat → List Char → Option (Json × List Char)
  | 0, _, _ => none
  | fuel + 1, depth, s =>
    match skipSpace s with
    | 'n' :: rest => (word ['u', 'l', 'l'] rest).map (Json.null, ·)
    | 't' :: rest => (word ['r', 'u', 'e'] rest).map (Json.bool true, ·)
    | 'f' :: rest => (word ['a', 'l', 's', 'e'] rest).map (Json.bool false, ·)
    | '"' :: rest => do
      let (text, rest) ← stringBody (rest.length + 1) rest
      match text with
      | some cs => return (.str (String.ofList cs), rest)
      | none => return (.invalid, rest)
    | '[' :: rest => do
      let (items, rest) ← match skipSpace rest with
        | ']' :: rest => some ([], rest)
        | _ => items fuel (depth - 1) rest
      return (if depth = 0 then .invalid else .arr items, rest)
    | '\x7b' :: rest => do
      let (fields, rest) ← match skipSpace rest with
        | '\x7d' :: rest => some (some [], rest)
        | _ => fields fuel (depth - 1) rest
      match fields with
      | some fields => return (if depth = 0 then .invalid else .obj fields, rest)
      | none => return (.invalid, rest)
    | s => number s

/-- Reads the items of an array up to its closing bracket. -/
def items : Nat → Nat → List Char → Option (List Json × List Char)
  | 0, _, _ => none
  | fuel + 1, depth, s => do
    let (j, rest) ← value fuel depth s
    match skipSpace rest with
    | ',' :: rest =>
      let (js, rest) ← items fuel depth rest
      return (j :: js, rest)
    | ']' :: rest => return ([j], rest)
    | _ => none

/-- Reads the fields of an object up to its closing brace.  The result is `none` inside if a field
name holds half of a surrogate pair. -/
def fields : Nat → Nat → List Char → Option (Option (List (String × Json)) × List Char)
  | 0, _, _ => none
  | fuel + 1, depth, s =>
    match skipSpace s with
    | '"' :: rest => do
      let (key, rest) ← stringBody (rest.length + 1) rest
      match skipSpace rest with
      | ':' :: rest =>
        let (j, rest) ← value fuel depth rest
        let field := key.map fun cs => (String.ofList cs, j)
        match skipSpace rest with
        | ',' :: rest =>
          let (more, rest) ← fields fuel depth rest
          return (do return (← field) :: (← more), rest)
        | '\x7d' :: rest => return (field.map ([·]), rest)
        | _ => none
      | _ => none
    | _ => none

end

end Reader

/-- Reads a text that holds one value, with arrays and objects nested at most `depth` deep. -/
def read? (depth : Nat) (text : String) : Option Json :=
  let s := text.toList
  match Reader.value (s.length + 1) depth s with
  | some (j, rest) => if (Reader.skipSpace rest).isEmpty then some j else none
  | none => none

end Bindery.Json
