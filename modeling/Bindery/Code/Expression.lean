import Bindery.Code.Node

/-!
# Expressions in registrations

The parts that registrations are made of.  Names of the binding library are written by a function
that the caller gives, because they may be shortened where they stand.

## Main definitions

* `quoted` — a C++ string literal.
* `Keyword.list?`, `CallPolicy.expression?` — the optional parts of a registration.
* `ShimArg.declarations`, `ShimArg.names` — parameter and argument lists.
-/

namespace Bindery

/-- How a name of the binding library is written. -/
abbrev LibraryName := String → String

/-- The text of one character inside a C++ string literal. -/
def quotedChar (c : Char) : List Char :=
  match c with
  | '\\' => ['\\', '\\']
  | '"' => ['\\', '"']
  | '\n' => ['\\', 'n']
  | c => [c]

/-- A C++ string literal. -/
def quoted (text : String) : String :=
  String.ofList ('"' :: text.toList.flatMap quotedChar ++ ['"'])

/-- A parameter that may be passed by name. -/
def Keyword.expression (lib : LibraryName) (k : Keyword) : String :=
  lib "arg" ++ "(\"" ++ k.name ++ "\")" ++
    match k.default? with
    | none => ""
    | some (.literal value) => "=" ++ value
    | some .noneObject => "=" ++ lib "object" ++ "()"

/-- The list of parameters that may be passed by name, if there are any. -/
def Keyword.list? (lib : LibraryName) (keywords : List Keyword) : Option String :=
  if keywords.isEmpty then none
  else some ("( " ++ ", ".intercalate (keywords.map (expression lib)) ++ " )")

/-- A call policy, unless it is the default one. -/
def CallPolicy.expression? (lib : LibraryName) : CallPolicy → Option String
  | default => none
  | returnInternalReference => some (lib "return_internal_reference" ++ "< >()")
  | other => some (lib "return_value_policy" ++ "< " ++ lib other.name ++ " >()")

namespace ShimArg

/-- A parameter list. -/
def declarations (args : List ShimArg) : String :=
  ", ".intercalate <| args.map fun a =>
    a.type ++ " " ++ a.name ++
      match a.default? with
      | some d => "=" ++ d
      | none => ""

/-- The arguments that hand the parameters on. -/
def names (args : List ShimArg) : String := ", ".intercalate (args.map (·.name))

/-- The argument that hands a parameter on to a Python override. -/
def forOverride (lib : LibraryName) (a : ShimArg) : String :=
  match a.passing with
  | .value => a.name
  | .ref => "boost::ref(" ++ a.name ++ ")"
  | .ptr => lib "ptr" ++ "(" ++ a.name ++ ")"

/-- The arguments that hand the parameters on to a Python override. -/
def namesForOverride (lib : LibraryName) (args : List ShimArg) : String :=
  ", ".intercalate (args.map (forOverride lib))

end ShimArg

end Bindery
