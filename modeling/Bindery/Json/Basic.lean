/-!
# JSON values

A JSON text as a tree.  Objects keep the order of their fields and repeated fields, and whole
numbers are kept apart from numbers with a fraction or an exponent, because a decoder has to tell
these apart.

## Main definitions

* `Json` — the tree.
-/

namespace Bindery

/-- A JSON value. -/
inductive Json
  | null
  | bool (b : Bool)
  /-- A number written as digits with at most a minus sign in front; `-0` is not among them. -/
  | int (n : Int)
  /-- Any other number, by its text. -/
  | decimal (text : String)
  | str (s : String)
  | arr (items : List Json)
  | obj (fields : List (String × Json))
  /-- A text of the right shape that stands for no value: a string or a field name with half of a
  surrogate pair, a number that is too large, or an array or object nested too deep. -/
  | invalid
  deriving Repr, Inhabited

namespace Json

mutual

/-- The tree holds no `invalid` part. -/
def isValid : Json → Bool
  | invalid => false
  | arr items => areValid items
  | obj fields => areValidFields fields
  | _ => true

/-- No item holds an `invalid` part. -/
def areValid : List Json → Bool
  | [] => true
  | j :: rest => j.isValid && areValid rest

/-- No field holds an `invalid` part. -/
def areValidFields : List (String × Json) → Bool
  | [] => true
  | f :: rest => f.2.isValid && areValidFields rest

end

/-- An optional value, with `null` for its absence. -/
def ofOption {α : Type} (f : α → Json) : Option α → Json
  | none => null
  | some a => f a

/-- A natural number. -/
def nat (n : Nat) : Json := int n

/-- A list of values. -/
def ofList {α : Type} (f : α → Json) (l : List α) : Json := arr (l.map f)

/-- A list of strings. -/
def strs (l : List String) : Json := arr (l.map str)

/-- The value of a field of an object; of a repeated field the last one counts. -/
def field? (name : String) : Json → Option Json
  | obj fields => fields.reverse.lookup name
  | _ => none

end Json

end Bindery
