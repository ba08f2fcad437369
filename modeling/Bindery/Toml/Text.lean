import Bindery.Json.Reader

/-!
# Strings and blanks of TOML

Readers over `List Char`.  Each takes something from the front of a text and returns the rest, or
fails.

## Main definitions

* `skipBlank`, `skipComment`, `skipLineEnd`, `skipFiller` — what stands between the parts of a
  document.
* `basicString`, `literalString`, `multiLineBasic`, `multiLineLiteral` — the four kinds of strings.
* `key` — keys with dots between their parts.
-/

namespace Bindery.Toml

/-! ### Blanks, comments and line ends -/

/-- A blank within a line. -/
def isBlank (c : Char) : Bool := c == ' ' || c == '\t'

/-- A character that may stand in comments and strings: a tab, or anything but a control
character. -/
def isPlain (c : Char) : Bool := c == '\t' || (0x20 ≤ c.toNat && c.toNat != 0x7F)

/-- The text without the blanks it begins with. -/
def skipBlank (s : List Char) : List Char := s.dropWhile isBlank

/-- The text behind a line end, if it begins with one. -/
def newline? : List Char → Option (List Char)
  | '\n' :: rest | '\r' :: '\n' :: rest => some rest
  | _ => none

/-- The text behind the comment it begins with, if it begins with one.  A comment reaches to the
end of its line. -/
def skipComment : List Char → List Char
  | '#' :: rest => rest.dropWhile isPlain
  | s => s

/-- The rest of a line: blanks, a comment, and the line end or the end of the text. -/
def skipLineEnd (s : List Char) : Option (List Char) :=
  match skipComment (skipBlank s) with
  | [] => some []
  | rest => newline? rest

/-- The text without the blanks, comments and line ends it begins with; at most `fuel` lines. -/
def skipFiller : Nat → List Char → List Char
  | 0, s => s
  | fuel + 1, s =>
    let rest := skipComment (skipBlank s)
    match newline? rest with
    | some rest => skipFiller fuel rest
    | none => rest

/-! ### Strings -/

/-- Puts a character in front of a text that has been read. -/
def push (c : Char) (r : List Char × List Char) : List Char × List Char := (c :: r.1, r.2)

/-- The value of a list of hexadecimal digits. -/
def hexValue? (ds : List Char) : Option Nat :=
  ds.foldlM (fun n d => do return n * 16 + (← Json.Reader.hexDigit? d)) 0

/-- The character that the hexadecimal digits in front of a text stand for. -/
def codePoint (count : Nat) (s : List Char) : Option (Char × List Char) := do
  let ds := s.take count
  if ds.length < count then none
  else
    let n ← hexValue? ds
    if n.isValidChar then some (Char.ofNat n, s.drop count) else none

/-- The character of an escape, read from behind the backslash. -/
def escape : List Char → Option (Char × List Char)
  | 'b' :: rest => some ('\x08', rest)
  | 't' :: rest => some ('\t', rest)
  | 'n' :: rest => some ('\n', rest)
  | 'f' :: rest => some ('\x0c', rest)
  | 'r' :: rest => some ('\r', rest)
  | 'e' :: rest => some ('\x1b', rest)
  | '"' :: rest => some ('"', rest)
  | '\\' :: rest => some ('\\', rest)
  | 'x' :: rest => codePoint 2 rest
  | 'u' :: rest => codePoint 4 rest
  | 'U' :: rest => codePoint 8 rest
  | _ => none

/-- Reads a string with escapes up to its closing quote. -/
def basicString : Nat → List Char → Option (List Char × List Char)
  | 0, _ => none
  | _ + 1, [] => none
  | _ + 1, '"' :: rest => some ([], rest)
  | fuel + 1, '\\' :: rest => do
    let (c, rest) ← escape rest
    return push c (← basicString fuel rest)
  | fuel + 1, c :: rest => do
    if isPlain c then return push c (← basicString fuel rest) else none

/-- Reads a string without escapes up to its closing quote. -/
def literalString (s : List Char) : Option (List Char × List Char) :=
  match s.span fun c => c != '\'' && isPlain c with
  | (cs, '\'' :: rest) => some (cs, rest)
  | _ => none

/-- The text behind the first line end, if it begins with one. -/
def skipFirstNewline (s : List Char) : List Char := (newline? s).getD s

/-- The quotes in front of a text, as far as they belong to a string of several lines, and the rest
behind its three closing quotes.  With fewer than three quotes the string goes on. -/
def closing (quote : Char) (s : List Char) : Option (List Char × List Char) :=
  let count := (s.takeWhile (· == quote)).length
  if count < 3 then none
  else
    let inside := min (count - 3) 2
    some (List.replicate inside quote, s.drop (inside + 3))

/-- The text without the blanks and line ends it begins with. -/
def skipLines : List Char → List Char
  | ' ' :: rest | '\t' :: rest | '\n' :: rest | '\r' :: '\n' :: rest => skipLines rest
  | s => s

/-- The text behind a backslash at the end of a line: blanks and line ends are passed over up to the
next other character. -/
def continuation? (s : List Char) : Option (List Char) := (newline? (skipBlank s)).map skipLines

/-- Reads a string of several lines with escapes up to its closing quotes. -/
def multiLineBasic : Nat → List Char → Option (List Char × List Char)
  | 0, _ => none
  | _ + 1, [] => none
  | fuel + 1, '\\' :: rest =>
    match continuation? rest with
    | some rest => multiLineBasic fuel rest
    | none => do
      let (c, rest) ← escape rest
      return push c (← multiLineBasic fuel rest)
  | fuel + 1, '\r' :: '\n' :: rest => do
    return push '\r' (push '\n' (← multiLineBasic fuel rest))
  | fuel + 1, c :: rest =>
    match closing '"' (c :: rest) with
    | some r => some r
    | none => do
      if c == '\n' || isPlain c then return push c (← multiLineBasic fuel rest) else none

/-- Reads a string of several lines without escapes up to its closing quotes. -/
def multiLineLiteral : Nat → List Char → Option (List Char × List Char)
  | 0, _ => none
  | _ + 1, [] => none
  | fuel + 1, '\r' :: '\n' :: rest => do
    return push '\r' (push '\n' (← multiLineLiteral fuel rest))
  | fuel + 1, c :: rest =>
    match closing '\'' (c :: rest) with
    | some r => some r
    | none => do
      if c == '\n' || isPlain c then return push c (← multiLineLiteral fuel rest) else none

/-- Reads a string of any kind from its opening quote on. -/
def string : List Char → Option (List Char × List Char)
  | '"' :: '"' :: '"' :: rest =>
    multiLineBasic (rest.length + 1) (skipFirstNewline rest)
  | '\'' :: '\'' :: '\'' :: rest =>
    multiLineLiteral (rest.length + 1) (skipFirstNewline rest)
  | '"' :: rest => basicString (rest.length + 1) rest
  | '\'' :: rest => literalString rest
  | _ => none

/-! ### Keys -/

/-- A character of a key without quotes. -/
def isKeyChar (c : Char) : Bool :=
  c.isAlphanum || c == '_' || c == '-'

/-- Reads one part of a key. -/
def keyPart : List Char → Option (String × List Char)
  | '"' :: rest => do
    let (cs, rest) ← basicString (rest.length + 1) rest
    return (String.ofList cs, rest)
  | '\'' :: rest => do
    let (cs, rest) ← literalString rest
    return (String.ofList cs, rest)
  | s =>
    match s.span isKeyChar with
    | ([], _) => none
    | (cs, rest) => some (String.ofList cs, rest)

/-- Reads the parts of a key, with dots between them. -/
def keyParts : Nat → List Char → Option (List String × List Char)
  | 0, _ => none
  | fuel + 1, s => do
    let (part, rest) ← keyPart (skipBlank s)
    match skipBlank rest with
    | '.' :: rest =>
      let (parts, rest) ← keyParts fuel rest
      return (part :: parts, rest)
    | rest => return ([part], rest)

/-- How many parts a key may have. -/
def keyLimit : Nat := 80

/-- Reads a key, with the blanks behind it. -/
def key (s : List Char) : Option (List String × List Char) := keyParts (keyLimit) s

end Bindery.Toml
