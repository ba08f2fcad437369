import Bindery.Text.Template

/-!
# Identifiers

A C++ name such as `vector<int>` becomes an identifier by spelling out its punctuation.
Different names may become the same identifier; a `Mangler` notes each such collision.

## Main definitions

* `isIdentifier` — ASCII letters, digits and underscores, with no digit in front.
* `identifierOf` — the identifier of a name.
* `Mangler` — remembers the names it has met.
-/

namespace Bindery.Text

/-- A text that can stand as an identifier. -/
def isIdentifier (name : String) : Bool := isName name.toList

/-- The word for a punctuation mark. -/
def spelledOut? : Char → Option String
  | '<' => some "_less_"
  | '>' => some "_grate_"
  | ',' => some "_comma_"
  | ' ' => some "_"
  | '\t' => some "_"
  | '*' => some "_ptr_"
  | '&' => some "_ref_"
  | '(' => some "_obrace_"
  | ')' => some "_cbrace_"
  | '[' => some "_o_sq_brace_"
  | ']' => some "_c_sq_brace_"
  | '=' => some "_equal_"
  | '.' => some "_dot_"
  | '$' => some "_dollar_"
  | _ => none

/-- The identifier characters that stand for one character: a word for a known mark, the character
itself if it may stand in an identifier, and its code point in hexadecimal digits otherwise. -/
def spellChar (c : Char) : List Char :=
  match spelledOut? c with
  | some word => word.toList
  | none => if isNameChar c then [c] else '_' :: Nat.toDigits 16 c.toNat ++ ['_']

/-- The identifier characters that stand for a text; two colons are one mark. -/
def spellName : List Char → List Char
  | ':' :: ':' :: rest => "_scope_".toList ++ spellName rest
  | c :: rest => spellChar c ++ spellName rest
  | [] => []

/-- The identifier of a name, as lists of characters. -/
def identifierChars (name : List Char) : List Char :=
  if isName name then name
  else
    match spellName name with
    | c :: rest => if c.isDigit then '_' :: c :: rest else c :: rest
    | [] => []

/-- The identifier of a name. -/
def identifierOf (name : String) : String := String.ofList (identifierChars name.toList)

/-- Two names with the same identifier. -/
structure NameCollision where
  mangled : String
  first : String
  second : String
  deriving DecidableEq, Repr, Inhabited

/-- The names met so far. -/
structure Mangler where
  /-- Each name with its identifier. -/
  cache : List (String × String) := []
  /-- Each identifier with the first name that had it. -/
  owners : List (String × String) := []
  collisions : List NameCollision := []
  cached : ∀ entry ∈ cache, entry.2 = identifierOf entry.1 := by
    exact fun _ h => absurd h List.not_mem_nil
  deriving Repr

namespace Mangler

/-- No name has been met. -/
def empty : Mangler := {}

instance : Inhabited Mangler := ⟨empty⟩

/-- The names met. -/
def seen (m : Mangler) : List String := m.cache.map Prod.fst

/-- Gives an identifier to a name that is new: the first name that has it owns it, and each other
name is a collision. -/
def claim (m : Mangler) (mangled name : String) : Mangler :=
  match m.owners.lookup mangled with
  | some first =>
    if first = name then m
    else { m with collisions := m.collisions ++ [⟨mangled, first, name⟩] }
  | none => { m with owners := m.owners ++ [(mangled, name)] }

/-- Remembers the identifier of a name. -/
def remember (m : Mangler) (name : String) : Mangler :=
  { m with
    cache := (name, identifierOf name) :: m.cache
    cached := List.forall_mem_cons.mpr ⟨rfl, m.cached⟩ }

/-- The identifier of a name, and the mangler that has met the name. A name is worked out only
once. -/
def mangle (m : Mangler) (name : String) : String × Mangler :=
  match m.cache.lookup name with
  | some mangled => (mangled, m)
  | none =>
    let mangled := identifierOf name
    (mangled, (m.claim mangled name).remember name)

/-- The mangler that has met a name. -/
def add (m : Mangler) (name : String) : Mangler := (m.mangle name).2

end Mangler

end Bindery.Text
