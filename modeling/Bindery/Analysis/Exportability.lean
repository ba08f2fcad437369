import Bindery.Decl.Graph
import Bindery.Options

/-!
# Exportability

Some declarations cannot be bound: functions with too many parameters or with function pointers
and arrays in their signature, operators without a counterpart in Python, hidden classes and
whatever mentions them.

## Main definitions

* `Callable.isSupportedOperator` — operators that can be bound.
* `DeclGraph.exportability` — whether a declaration can be bound, and if not, why.
* `DeclGraph.isExcluded` — declarations that are left out without a word.
* `DeclGraph.candidateMembers` — the members of a class that take part in its binding.
-/

namespace Bindery

/-- The binary operators that can be bound. -/
def binaryOperators : List String :=
  ["+", "-", "*", "/", "%", "^", "&", "|", "<<", ">>", "+=", "-=", "*=", "/=", "%=", "^=", "&=",
   "|=", "<<=", ">>=", "==", "!=", "<", ">", "<=", ">="]

/-- The unary operators that can be bound. -/
def unaryOperators : List String := ["-", "+", "!", "~"]

/-- The operators that are bound as methods, with the names of the methods. -/
def callOperators : List (String × String) := [("()", "__call__"), ("[]", "__getitem__")]

namespace Callable

/-- The number of operands of an operator, the object it is called on included. -/
def operandCount (c : Callable) : Nat :=
  match c.kind with
  | .memberOperator _ => c.args.length + 1
  | _ => c.args.length

/-- A function that is no operator, or an operator that can be bound. -/
def isSupportedOperator (c : Callable) : Bool :=
  match c.kind.symbol? with
  | none => true
  | some symbol =>
    if (callOperators.lookup symbol).isSome then c.kind matches .memberOperator _
    else
      match c.operandCount with
      | 1 => unaryOperators.contains symbol
      | 2 => binaryOperators.contains symbol
      | _ => false

/-- The types of the result and of the parameters; parameters with their numbers from 1. -/
def signatureTypes (c : Callable) : List (Option Nat × CppType) :=
  (none, c.result) :: c.argTypes.mapIdx fun i t => (some (i + 1), t)

end Callable

/-- The numbers of the arguments that a transformer turns from arrays into sequences. -/
def arrayArguments (specs : List TransformerSpec) : List Nat :=
  specs.filterMap fun s =>
    match s.kind with
    | .inputArray _ | .outputArray _ => some s.arg
    | _ => none

namespace DeclGraph

/-- The class a type is built on, if it or a class around it is hidden. -/
def hiddenClass? (g : DeclGraph) (t : CppType) : Option DeclId :=
  t.declared?.filter fun id => g.isClass id && !g.isPublicClass id

/-- The reason that a hidden class gives. -/
def hiddenClassReason (g : DeclGraph) (id : DeclId) : String :=
  s!"declarations that involve non-public class '{g.fullName id}' are not exportable"

/-- What is wrong with one type of a signature; `handled` is set for an argument whose array a
transformer takes care of. -/
def signatureFault? (g : DeclGraph) (handled : Bool) (t : CppType) : Option String :=
  if t.hasFunctionPointer then
    some "functions taking or returning function pointers are not exportable"
  else if t.isArray && !handled then
    some "functions taking or returning C arrays are not exportable"
  else (g.hiddenClass? t).map g.hiddenClassReason

/-- What is wrong with a function. -/
def callableFault? (g : DeclGraph) (options : ModuleOptions) (specs : List TransformerSpec)
    (c : Callable) : Option String :=
  if !c.isSupportedOperator then
    some ("operator" ++ c.kind.symbol?.getD "" ++ " is not supported")
  else if c.args.length > options.maxArity then
    some s!"functions with more than {options.maxArity} arguments are not exportable"
  else
    c.signatureTypes.findSome? fun (i, t) =>
      g.signatureFault? (i.any (arrayArguments specs).contains) t

/-- A pointer to a fundamental type or an enumeration. -/
def isPlainPointer (g : DeclGraph) (t : CppType) : Bool :=
  t.isPointer && t.pointee?.any fun p => p.isFundamental || g.isEnumType p

/-- What is wrong with a variable of the given type. -/
def variableFault? (g : DeclGraph) (id : DeclId) (t : CppType) : Option String :=
  if t.isArray then some "variables of C array type are not exportable"
  else if t.hasFunctionPointer then some "variables of function pointer type are not exportable"
  else if (g.parentClass? id).isSome && t.isReference then
    some "reference members are not exportable"
  else if (g.parentClass? id).isSome && g.isPlainPointer t then
    some "pointer members of fundamental or enum type are not exportable"
  else (g.hiddenClass? t).map g.hiddenClassReason

/-- What is wrong with a declaration. -/
def fault? (g : DeclGraph) (options : ModuleOptions) (id : DeclId) (d : Declaration) :
    Option String :=
  match d.kind with
  | .cls _ =>
    if d.name.isEmpty then some "unnamed classes are not exportable"
    else if !g.isPublicClass id then some "non-public classes are not exportable"
    else none
  | .callable c => g.callableFault? options d.config.transformers c
  | .variable v => g.variableFault? id v.type
  | .enum _ | .ns _ | .typedef _ => none

/-- Whether a declaration can be bound. -/
def exportability (g : DeclGraph) (options : ModuleOptions) (id : DeclId) :
    Except MissingDecl Exportability := do
  match g.fault? options id (← g.decl id) with
  | some reason => return .no reason
  | none => return .yes

/-- Declarations that are left out without a word: those the user ignores, destructors, assignment
operators, type definitions, and what the compiler made, constructors apart. -/
def isExcluded (g : DeclGraph) (id : DeclId) : Except MissingDecl Bool := do
  let d ← g.decl id
  if d.config.ignore then return true
  match d.kind with
  | .callable c =>
    match c.kind with
    | .destructor | .memberOperator "=" => return true
    | .constructor .. => return false
    | _ => return d.isArtificial
  | .typedef _ => return true
  | _ => return false

/-- Members that take part in the binding of their class: public ones, protected functions, and
private functions that are pure virtual. -/
def isCandidate (g : DeclGraph) (id : DeclId) (access : Access) : Bool :=
  match access with
  | .pub => true
  | .prot => (g.callable? id).isSome
  | .priv => (g.callable? id).any (·.virtuality == .pure)

/-- The members of a class that take part in its binding; all members have to exist. -/
def candidateMembers (g : DeclGraph) (id : DeclId) : Except MissingDecl (List DeclId) :=
  (g.members id).filterM fun m => do return g.isCandidate m (← g.decl m).access

end DeclGraph

end Bindery
