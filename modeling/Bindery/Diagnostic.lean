import Bindery.Json.Basic

/-!
# Diagnostics

What a user is told about a module: declarations that are left out, functions without a call
policy, names that clash.

## Main definitions

* `Severity`, `Diagnostic` — one message; `Diagnostic.text` is its text.
* `Diagnostic.toJson` — the message for other tools.
-/

namespace Bindery

/-- How much a diagnostic matters. -/
inductive Severity
  /-- The module would be wrong. -/
  | error
  /-- Something was left out of the module. -/
  | warning
  | info
  deriving DecidableEq, Repr, Inhabited

/-- The word for a severity. -/
def Severity.text : Severity → String
  | error => "error"
  | warning => "warning"
  | info => "info"

/-- The name of a severity for other tools. -/
def Severity.tag : Severity → String
  | error => "Error"
  | warning => "Warning"
  | info => "Info"

/-- A message of one phase, about one declaration or none. -/
structure Diagnostic where
  severity : Severity
  phase : String
  message : String
  /-- The full name of the declaration. -/
  location : Option String := none
  deriving DecidableEq, Repr, Inhabited

/-- A diagnostic on one line, unless its message has several. -/
def Diagnostic.text (d : Diagnostic) : String :=
  d.severity.text ++ ": " ++ d.message ++
    match d.location with
    | some l => " (at " ++ l ++ ")"
    | none => ""

/-- The JSON form of a diagnostic. -/
def Diagnostic.toJson (d : Diagnostic) : Json :=
  .obj
    [("severity", .str d.severity.tag),
     ("phase", .str d.phase),
     ("message", .str d.message),
     ("location", .ofOption .str d.location)]

end Bindery
