import Bindery.Json.Basic

/-!
# Decoding JSON

Small decoders that take a JSON tree apart.  A decoder answers `none` when the tree does not have
the shape it expects; why is not recorded.

A record is written as an object.  Fields that the decoder does not know are passed over, but a
known field may stand only once.  The values of the fields in their order, as an array, are a
record as well.

## Main definitions

* `Json.bool?`, `Json.str?`, `Json.natBelow?`, `Json.intBetween?`, `Json.listOf?` — plain values.
* `Json.variant?` — the name of one of several alternatives.
* `Json.Setting` — whether a value stands for itself or in a part that is told by its tag.
* `Json.Record`, `Json.record?` — the known fields of a record.
-/

namespace Bindery.Json

/-- A decoder of values out of JSON trees. -/
abbrev Decoder (α : Type) := Json → Option α

/-- A truth value. -/
def bool? : Decoder Bool
  | .bool b => some b
  | _ => none

/-- A string. -/
def str? : Decoder String
  | .str s => some s
  | _ => none

/-- A natural number below a bound. -/
def natBelow? (bound : Nat) : Decoder Nat
  | .int (.ofNat n) => if n < bound then some n else none
  | _ => none

/-- A whole number between two bounds, both included. -/
def intBetween? (lo hi : Int) : Decoder Int
  | .int n => if lo ≤ n ∧ n ≤ hi then some n else none
  | _ => none

/-- An unsigned number of 32 bits. -/
def word32? : Decoder Nat := natBelow? UInt32.size

/-- An unsigned number of 64 bits. -/
def word64? : Decoder Nat := natBelow? UInt64.size

/-- A signed number of 64 bits. -/
def int64? : Decoder Int := intBetween? (-9223372036854775808) 9223372036854775807

/-- An array of values of one kind. -/
def listOf? {α : Type} (item : Decoder α) : Decoder (List α)
  | .arr items => items.mapM item
  | _ => none

/-- A value that may be `null`. -/
def nullable? {α : Type} (value : Decoder α) : Decoder (Option α)
  | .null => some none
  | j => (value j).map some

/-- Where a value stands. -/
inductive Setting
  /-- Its type is known from its place. -/
  | plain
  /-- It is a part of a value whose type only its tag tells. -/
  | tagged
  deriving DecidableEq, Repr

/-- The value stands for nothing.  In a tagged value an empty object does as well as `null`. -/
def isNothing (setting : Setting) : Json → Bool
  | .null => true
  | .obj [] => setting == .tagged
  | _ => false

/-- The name of one of several alternatives that carry nothing: a string, or an object with the
name as its only field and nothing in it. -/
def variant? (setting : Setting) : Decoder String
  | .str s => some s
  | .obj [(s, j)] => if isNothing setting j then some s else none
  | _ => none

/-- An object of strings, field by field. -/
def pairs? : Decoder (List (String × String))
  | .obj fields => fields.mapM fun f => (str? f.2).map (f.1, ·)
  | _ => none

/-! ### Records -/

/-- The known fields of a record, each at most once. -/
structure Record where
  fields : List (String × Json)

/-- The known fields of a record; `none` if one of them is repeated. -/
def record? (names : List String) : Decoder Record
  | .obj fields =>
    let known := fields.filter fun f => names.contains f.1
    if (known.map (·.1)).Nodup then some ⟨known⟩ else none
  | .arr items => if items.length ≤ names.length then some ⟨names.zip items⟩ else none
  | _ => none

/-- The fields of a record in which no other fields may stand. -/
def strictRecord? (names : List String) : Decoder Record
  | .obj fields =>
    if fields.all (fun f => names.contains f.1) then record? names (.obj fields) else none
  | j => record? names j

namespace Record

/-- The value of a field. -/
def get? (r : Record) (name : String) : Option Json := r.fields.lookup name

/-- The value of a field that has to be there. -/
def required {α : Type} (r : Record) (name : String) (value : Decoder α) : Option α :=
  (r.get? name).bind value

/-- The value of a field that may be left out. -/
def withDefault {α : Type} (r : Record) (name : String) (value : Decoder α) (default : α) :
    Option α :=
  match r.get? name with
  | some j => value j
  | none => some default

/-- The value of a field that may be left out or be `null`. -/
def optional {α : Type} (r : Record) (name : String) (value : Decoder α) : Option (Option α) :=
  r.withDefault name (nullable? value) none

/-- The value of a list that may be left out. -/
def list {α : Type} (r : Record) (name : String) (item : Decoder α) : Option (List α) :=
  r.withDefault name (listOf? item) []

/-- The value of a flag that may be left out; it is down then. -/
def flag (r : Record) (name : String) : Option Bool := r.withDefault name bool? false

end Record

/-- A record of one of several alternatives: the name of the alternative under `tag`, and the
rest.  As an array, the name comes first. -/
def tagged? (tag : String) : Json → Option (Json × Json)
  | .obj fields =>
    match fields.filter (·.1 == tag) with
    | [t] => some (t.2, .obj (fields.filter (·.1 != tag)))
    | _ => none
  | .arr (t :: items) => some (t, .arr items)
  | _ => none

end Bindery.Json
