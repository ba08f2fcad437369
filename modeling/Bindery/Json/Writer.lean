import Bindery.Json.Basic

/-!
# Writing JSON

Two layouts of JSON texts: compact, on one line without blanks, and indented, with two blanks for
each level, one item a line, and `[]` and `\x7b\x7d` for what is empty.  Characters beyond ASCII
stand for themselves.

## Main definitions

* `Json.quote` — a string with its quotes and escapes.
* `Json.compact`, `Json.pretty` — the two layouts.
-/

namespace Bindery.Json

/-- The lower-case hexadecimal digit of a number below 16. -/
def hexChar (n : Nat) : Char := Char.ofNat (if n < 10 then 48 + n else 87 + n)

/-- The text of one character inside a string. -/
def escapeChar (c : Char) : List Char :=
  match c with
  | '"' => ['\\', '"']
  | '\\' => ['\\', '\\']
  | '\n' => ['\\', 'n']
  | '\r' => ['\\', 'r']
  | '\t' => ['\\', 't']
  | '\x08' => ['\\', 'b']
  | '\x0c' => ['\\', 'f']
  | c =>
    if c.toNat < 0x20 then ['\\', 'u', '0', '0', hexChar (c.toNat / 16), hexChar (c.toNat % 16)]
    else [c]

/-- A string with its quotes and escapes. -/
def quote (s : String) : String := String.ofList ('"' :: s.toList.flatMap escapeChar ++ ['"'])

mutual

/-- The text of a value on one line. -/
def compact : Json → String
  | null => "null"
  | bool true => "true"
  | bool false => "false"
  | int n => toString n
  | decimal text => text
  | str s => quote s
  | arr items => "[" ++ compactItems items ++ "]"
  | obj fields => "\x7b" ++ compactFields fields ++ "\x7d"
  | invalid => "null"

/-- The items of an array, with commas between them. -/
def compactItems : List Json → String
  | [] => ""
  | [j] => compact j
  | j :: rest => compact j ++ "," ++ compactItems rest

/-- The fields of an object, with commas between them. -/
def compactFields : List (String × Json) → String
  | [] => ""
  | [f] => quote f.1 ++ ":" ++ compact f.2
  | f :: rest => quote f.1 ++ ":" ++ compact f.2 ++ "," ++ compactFields rest

end

/-- A line break with the indentation of a level. -/
def newline (level : Nat) : String := "\n" ++ String.ofList (List.replicate (2 * level) ' ')

mutual

/-- The text of a value with one item a line; `level` is the indentation of the value itself. -/
def prettyAt (level : Nat) : Json → String
  | null => "null"
  | bool true => "true"
  | bool false => "false"
  | int n => toString n
  | decimal text => text
  | str s => quote s
  | arr [] => "[]"
  | arr (j :: rest) =>
    "[" ++ newline (level + 1) ++ prettyAt (level + 1) j ++ prettyItems (level + 1) rest ++
      newline level ++ "]"
  | obj [] => "\x7b\x7d"
  | obj (f :: rest) =>
    "\x7b" ++ newline (level + 1) ++ quote f.1 ++ ": " ++ prettyAt (level + 1) f.2 ++
      prettyFields (level + 1) rest ++ newline level ++ "\x7d"
  | invalid => "null"

/-- The items of an array after the first. -/
def prettyItems (level : Nat) : List Json → String
  | [] => ""
  | j :: rest => "," ++ newline level ++ prettyAt level j ++ prettyItems level rest

/-- The fields of an object after the first. -/
def prettyFields (level : Nat) : List (String × Json) → String
  | [] => ""
  | f :: rest =>
    "," ++ newline level ++ quote f.1 ++ ": " ++ prettyAt level f.2 ++ prettyFields level rest

end

/-- The text of a value with one item a line. -/
def pretty (j : Json) : String := prettyAt 0 j

end Bindery.Json
