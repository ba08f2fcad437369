import Bindery.Decl.Config
import Bindery.Decl.Type
import Bindery.Text.Blank

/-!
# Declarations

The declarations of a C++ translation unit: namespaces, classes, functions of all kinds,
variables, enumerations and type definitions.

## Main definitions

* `Callable` — a function, constructor, destructor or operator.
* `DeclKind` — what a declaration declares.
* `Declaration` — a declaration with its place and the user's decisions about it.
-/

namespace Bindery

/-- Who may use a member of a class. -/
inductive Access
  | pub
  | prot
  | priv
  deriving DecidableEq, Repr, Inhabited

/-- Whether a derived class may or must override a member function. -/
inductive Virtuality
  | notVirtual
  | overridable
  | pure
  deriving DecidableEq, Repr, Inhabited

/-- A function that derived classes may override. -/
def Virtuality.isVirtual : Virtuality → Bool
  | notVirtual => false
  | _ => true

/-- Where a declaration stands in the sources. -/
structure Location where
  file : String := ""
  line : Nat := 0
  deriving DecidableEq, Repr, Inhabited

/-- How a class was introduced. -/
inductive ClassKey
  | cls
  | struct
  | union
  deriving DecidableEq, Repr, Inhabited

/-- A base class with the access of the inheritance. -/
structure BaseSpec where
  base : DeclId
  access : Access := .pub
  deriving DecidableEq, Repr, Inhabited

/-- A class, struct or union. -/
structure ClassDecl where
  key : ClassKey := .cls
  bases : List BaseSpec := []
  members : List DeclId := []
  /-- Only pointers to the class are passed around. -/
  isOpaque : Bool := false
  deriving DecidableEq, Repr, Inhabited

/-- The sorts of functions. -/
inductive CallableKind
  | freeFunction
  | memberFunction
  | constructor (isCopy isExplicit : Bool)
  | destructor
  | memberOperator (symbol : String)
  | freeOperator (symbol : String)
  | castingOperator
  deriving DecidableEq, Repr, Inhabited

namespace CallableKind

/-- The sort in words. -/
def describe : CallableKind → String
  | freeFunction => "free function"
  | memberFunction => "member function"
  | constructor .. => "constructor"
  | destructor => "destructor"
  | memberOperator _ => "member operator"
  | freeOperator _ => "free operator"
  | castingOperator => "casting operator"

/-- A function that belongs to a class. -/
def isMember : CallableKind → Bool
  | freeFunction | freeOperator _ => false
  | _ => true

/-- The symbol of an operator. -/
def symbol? : CallableKind → Option String
  | memberOperator s | freeOperator s => some s
  | _ => none

end CallableKind

/-- A parameter of a function; the name may be empty. -/
structure Argument where
  name : String := ""
  type : CppType
  default? : Option String := none
  deriving DecidableEq, Repr, Inhabited

/-- A pointer parameter whose default value is a null pointer. -/
def Argument.hasNullPointerDefault (a : Argument) : Bool :=
  a.type.isPointer &&
    match a.default?.map Text.trimmed with
    | some v => v == "0" || v == "NULL" || v == "nullptr"
    | none => false

/-- The name of a parameter in generated code; one without a name is called by its place, counted
from 0. -/
def Argument.nameAt (place : Nat) (a : Argument) : String :=
  if a.name.isEmpty then s!"p{place}" else a.name

/-- A function, constructor, destructor or operator. -/
structure Callable where
  kind : CallableKind
  returnType : Option CppType := none
  args : List Argument := []
  virtuality : Virtuality := .notVirtual
  isStatic : Bool := false
  isConst : Bool := false
  deriving DecidableEq, Repr, Inhabited

namespace Callable

/-- The type of the result, `void` where none is declared. -/
def result (c : Callable) : CppType := c.returnType.getD .void

/-- Any constructor. -/
def isConstructor (c : Callable) : Bool := c.kind matches .constructor ..

/-- A constructor marked as the copy constructor. -/
def isCopyConstructor (c : Callable) : Bool := c.kind matches .constructor true _

/-- The types of the parameters. -/
def argTypes (c : Callable) : List CppType := c.args.map (·.type)

/-- The names of the parameters in generated code. -/
def argNames (c : Callable) : List String := c.args.mapIdx Argument.nameAt

end Callable

/-- A variable; `bits` is the width of a bit-field. -/
structure VariableDecl where
  type : CppType
  isStatic : Bool := false
  bits : Option Nat := none
  deriving DecidableEq, Repr, Inhabited

/-- An enumerator with its value. -/
structure Enumerator where
  name : String
  value : Int
  deriving DecidableEq, Repr, Inhabited

/-- What a declaration declares. -/
inductive DeclKind
  | ns (members : List DeclId)
  | cls (c : ClassDecl)
  | callable (c : Callable)
  | variable (v : VariableDecl)
  | enum (values : List Enumerator)
  | typedef (type : CppType)
  deriving DecidableEq, Repr, Inhabited

namespace DeclKind

/-- The sort of declaration in words. -/
def describe : DeclKind → String
  | ns _ => "namespace"
  | cls _ => "class"
  | callable c => c.kind.describe
  | .variable _ => "variable"
  | enum _ => "enumeration"
  | typedef _ => "typedef"

/-- The members of a namespace or class; other declarations have none. -/
def members : DeclKind → List DeclId
  | ns ms => ms
  | cls c => c.members
  | _ => []

/-- Namespaces and classes may have members. -/
def isScope : DeclKind → Bool
  | ns _ | cls _ => true
  | _ => false

/-- Adds a member to a namespace or class. -/
def addMember (id : DeclId) : DeclKind → DeclKind
  | ns ms => ns (ms ++ [id])
  | cls c => cls { c with members := c.members ++ [id] }
  | k => k

end DeclKind

/-- A declaration with its place and the user's decisions about it. -/
structure Declaration where
  name : String
  kind : DeclKind
  access : Access := .pub
  parent : Option DeclId := none
  location : Location := {}
  /-- Made by the compiler. -/
  isArtificial : Bool := false
  config : ExportConfig := {}
  deriving DecidableEq, Repr, Inhabited

end Bindery
