import Bindery.Json.Decode

/-!
# Lenient access to fields

Descriptions that people write leave out what is usual.  A field that is missing, or holds a value
of another type, reads as the empty value of the type that is asked for.

## Main definitions

* `Json.Lenient.get`, `Json.Lenient.has` — a field as it is.
* `Json.Lenient.string`, `Json.Lenient.nat`, `Json.Lenient.bool`, `Json.Lenient.items` — a field
  by its type.
-/

namespace Bindery.Json.Lenient

/-- The value of a field. -/
def get (j : Json) (name : String) : Json := (j.field? name).getD .null

/-- The field holds something. -/
def has (j : Json) (name : String) : Bool :=
  match get j name with
  | .null => false
  | _ => true

/-- The text in a field, if there is one. -/
def string? (j : Json) (name : String) : Option String := str? (get j name)

/-- The text in a field. -/
def string (j : Json) (name : String) : String := (string? j name).getD ""

/-- The natural number in a field, if there is one. -/
def nat? (j : Json) (name : String) : Option Nat :=
  match get j name with
  | .int (.ofNat n) => some n
  | _ => none

/-- The natural number in a field. -/
def nat (j : Json) (name : String) : Nat := (nat? j name).getD 0

/-- The truth value in a field. -/
def bool (j : Json) (name : String) : Bool := (bool? (get j name)).getD false

/-- The values in a field that holds an array. -/
def items (j : Json) (name : String) : List Json :=
  match get j name with
  | .arr js => js
  | _ => []

/-- The texts in a field that holds an array. -/
def strings (j : Json) (name : String) : List String := (items j name).filterMap str?

/-- The natural numbers in a field that holds an array. -/
def nats (j : Json) (name : String) : List Nat :=
  (items j name).filterMap fun
    | .int (.ofNat n) => some n
    | _ => none

/-- The fields of the object in a field. -/
def entries (j : Json) (name : String) : List (String × Json) :=
  match get j name with
  | .obj fields => fields
  | _ => []

end Bindery.Json.Lenient
