import Bindery.Decl.Graph
import Bindery.Transform.CallCode

/-!
# The state of a transformed function

A transformed function has two generated sides.  The *exposed* side is what Python calls: it has a
parameter list of its own and passes one expression for each parameter of the native function.  The
*override* side is what C++ calls when a Python class overrides the function: it has the native
parameters and passes a list of expressions to Python.

Transformers edit both sides.  Native parameters are counted from 1 in the edits; number 0 is the
result.  An edit that fails leaves the state as it was.

## Main definitions

* `TransformState` — both sides; `TransformState.ofCallable` is the untransformed function.
* `removeArg`, `insertArg`, `setCallParam`, `addResult`, `addVirtualResult`, `declareLocal` — the
  edits.
* `pyResultExpr` — how the override side reads what Python returned for a parameter.
* `exposedCode`, `overrideCode` — the code of the two sides.
* `TransformError` — why an edit or a transformer fails.
-/

namespace Bindery

/-- A parameter of a generated function. -/
structure Param where
  name : String
  type : CppType
  default? : Option String := none
  deriving DecidableEq, Repr, Inhabited

/-- A value in the result of the exposed function. -/
structure ResultExpr where
  expr : String
  type : CppType
  deriving DecidableEq, Repr, Inhabited

/-- A temporary; `size` makes it an array. -/
structure LocalVar where
  name : String
  type : CppType
  size : Option Nat := none
  initializer : Option String := none
  deriving DecidableEq, Repr, Inhabited

/-- The two generated functions. -/
inductive Side
  /-- Called from Python, calls the native function. -/
  | exposed
  /-- Called from C++, calls a Python override. -/
  | override
  deriving DecidableEq, Repr, Inhabited

/-- A value that a Python override returns. -/
inductive VirtualResult
  | nativeReturn
  /-- The value of the native parameter of this name. -/
  | arg (name : String)
  deriving DecidableEq, Repr, Inhabited

/-- What a transformer wants its argument to be. -/
inductive Expectation
  | pointerOrReference
  | pointerOrArray
  deriving DecidableEq, Repr, Inhabited

/-- The expectation in words. -/
def Expectation.text : Expectation → String
  | pointerOrReference => "a pointer or a reference"
  | pointerOrArray => "a pointer or an array"

/-- Why an edit or a transformer fails. -/
inductive TransformError
  | outOfRange (function : String) (index count : Nat)
  | alreadyRemoved (function : String) (index : Nat)
  | wrongType (function : String) (spec : TransformerSpec) (arg : String) (expected : Expectation)
      (found : CppType)
  /-- The state takes no more edits. -/
  | frozen (function : String)
  deriving DecidableEq, Repr

/-- The failure in words; types are spelled with the names of the graph. -/
def TransformError.message (g : DeclGraph) : TransformError → String
  | outOfRange function index count =>
    s!"argument index {index} is out of range for {function} ({count} arguments)"
  | alreadyRemoved function index =>
    s!"argument {index} of {function} was already removed by another transformer"
  | wrongType function spec arg expected found =>
    s!"{spec.text} on {function}: argument '{arg}' must be {expected.text}, " ++
      s!"found '{g.spell found}'"
  | frozen function => s!"the signature of {function} is already frozen"

/-- Both sides of a transformed function. -/
structure TransformState where
  /-- The name of the function in messages. -/
  function : String
  nativeArgs : List Param
  nativeReturn : CppType
  /-- The parameters of the exposed function, each with the place of its native parameter. -/
  exposed : List (Nat × Param)
  /-- What the exposed function passes on, one expression for each native parameter. -/
  callParams : List String
  results : List ResultExpr := []
  exposedLocals : List LocalVar := []
  /-- The temporary that holds the result of the native call. -/
  resultVar : Option String := none
  /-- What the override passes to Python. -/
  overrideParams : List String
  /-- The places of native parameters among the override parameters. -/
  argIndexMap : List (Option Nat)
  virtualResults : List VirtualResult := []
  overrideLocals : List LocalVar := []
  isFrozen : Bool := false
  deriving DecidableEq, Repr, Inhabited

/-- The first of `name`, `name_2`, `name_3`, … that is not taken, where `next` is the number that
is tried first. -/
def freshFrom (taken : List String) (name : String) : Nat → Nat → String
  | 0, next => s!"{name}_{next}"
  | fuel + 1, next =>
    let candidate := s!"{name}_{next}"
    if candidate ∈ taken then freshFrom taken name fuel (next + 1) else candidate

/-- The name itself if it is not taken, and otherwise the name with the least number from 2 that
makes it new. -/
def freshName (taken : List String) (name : String) : String :=
  if name ∈ taken then freshFrom taken name taken.length 2 else name

namespace TransformState

/-! ### Temporaries -/

/-- The names that a temporary of one side cannot have. -/
def taken (s : TransformState) : Side → List String
  | .exposed => "self" :: s.exposedLocals.map (·.name) ++ s.exposed.map (·.2.name)
  | .override => "self" :: s.overrideLocals.map (·.name) ++ s.nativeArgs.map (·.name)

/-- Declares a temporary on one side.  Returns its name, which is changed if it is taken. -/
def declareLocal (s : TransformState) (side : Side) (name : String) (type : CppType)
    (size : Option Nat := none) (initializer : Option String := none) : String × TransformState :=
  let name := freshName (s.taken side) name
  let local_ : LocalVar := { name, type, size, initializer }
  (name,
    match side with
    | .exposed => { s with exposedLocals := s.exposedLocals ++ [local_] }
    | .override => { s with overrideLocals := s.overrideLocals ++ [local_] })

/-! ### The untransformed function -/

/-- The native parameters of a function. -/
def paramsOf (c : Callable) : List Param :=
  c.args.mapIdx fun i a => { name := a.nameAt i, type := a.type, default? := a.default? }

/-- The state of a function before the result is taken care of. -/
def signatureOf (function : String) (c : Callable) : TransformState :=
  let args := paramsOf c
  { function
    nativeArgs := args
    nativeReturn := c.result
    exposed := args.mapIdx fun i p => (i, p)
    callParams := args.map (·.name)
    overrideParams := args.map (·.name)
    argIndexMap := args.mapIdx fun i _ => some i }

/-- The state of a function that no transformer has changed. -/
def ofCallable (function : String) (c : Callable) : TransformState :=
  let s := signatureOf function c
  if s.nativeReturn.isVoid then s
  else
    let type := s.nativeReturn.removeReference.removeCv
    let (name, s) := s.declareLocal .exposed "result" type
    { s with
      results := [{ expr := name, type }]
      resultVar := some name
      virtualResults := [.nativeReturn] }

/-! ### Edits -/

/-- The native parameter of the given number. -/
def arg (s : TransformState) (index : Nat) : Except TransformError Param :=
  match index with
  | 0 => .error (.outOfRange s.function index s.nativeArgs.length)
  | i + 1 =>
    match s.nativeArgs[i]? with
    | some p => .ok p
    | none => .error (.outOfRange s.function index s.nativeArgs.length)

/-- Edits are still possible. -/
def checkOpen (s : TransformState) : Except TransformError Unit :=
  if s.isFrozen then .error (.frozen s.function) else .ok ()

/-- Takes the native result out of the exposed results. -/
def dropResult (s : TransformState) : TransformState :=
  match s.resultVar with
  | some name =>
    { s with resultVar := none, results := s.results.filter (·.expr ≠ name) }
  | none => s

/-- Moves places behind a removed one up. -/
def closeGap (place : Nat) (entry : Option Nat) : Option Nat :=
  entry.map fun e => if e > place then e - 1 else e

/-- Moves places from an inserted one on down. -/
def openGap (place : Nat) (entry : Option Nat) : Option Nat :=
  entry.map fun e => if e ≥ place then e + 1 else e

/-- Takes a native parameter out of the exposed signature and of what is passed to Python; number 0
takes the native result out of the exposed results. -/
def removeArg (s : TransformState) (index : Nat) : Except TransformError TransformState := do
  s.checkOpen
  match index with
  | 0 => return s.dropResult
  | native + 1 =>
    let _ ← s.arg index
    match s.argIndexMap[native]?.join with
    | none => throw (.alreadyRemoved s.function index)
    | some place =>
      return { s with
        exposed := s.exposed.filter (·.1 ≠ native)
        overrideParams := s.overrideParams.eraseIdx place
        argIndexMap := (s.argIndexMap.set native none).map (closeGap place) }

/-- The place among the override parameters in front of which something for a native parameter
belongs: the least place of a later native parameter. -/
def overridePlace (s : TransformState) (native : Nat) : Nat :=
  ((s.argIndexMap.drop (native + 1)).filterMap id).min?.getD s.overrideParams.length

/-- Puts a parameter into the exposed signature where the native one belongs, and an expression
into what is passed to Python. -/
def insertArg (s : TransformState) (index : Nat) (param : Param) (expr : String) :
    Except TransformError TransformState := do
  s.checkOpen
  let _ ← s.arg index
  let native := index - 1
  let (before, after) := s.exposed.span (·.1 ≤ native)
  let place := s.overridePlace native
  return { s with
    exposed := before ++ (native, param) :: after
    overrideParams := s.overrideParams.insertIdx place expr
    argIndexMap := s.argIndexMap.map (openGap place) }

/-- Replaces what the exposed function passes for a native parameter. -/
def setCallParam (s : TransformState) (index : Nat) (expr : String) :
    Except TransformError TransformState := do
  s.checkOpen
  let _ ← s.arg index
  return { s with callParams := s.callParams.set (index - 1) expr }

/-- Adds a value to the result of the exposed function. -/
def addResult (s : TransformState) (expr : String) (type : CppType) :
    Except TransformError TransformState := do
  s.checkOpen
  return { s with results := s.results ++ [{ expr, type }] }

/-- Notes that a Python override returns a value for a native parameter, behind the values noted
before. -/
def addVirtualResult (s : TransformState) (index : Nat) : Except TransformError TransformState := do
  s.checkOpen
  let p ← s.arg index
  return { s with virtualResults := s.virtualResults ++ [.arg p.name] }

/-- The type of Python objects. -/
def objectType : CppType := .named "boost::python::object"

/-- The type of Python lists. -/
def listType : CppType := .named "boost::python::list"

/-- Ends the edits.  If Python is to return anything, the override gets a temporary for it. -/
def freeze (s : TransformState) : TransformState :=
  if s.isFrozen || s.virtualResults.isEmpty then { s with isFrozen := true }
  else { (s.declareLocal .override "pyresult" objectType).2 with isFrozen := true }

/-! ### Code -/

/-- How the override reads one of the values that Python returned. -/
def pyResultAt (s : TransformState) (place : Nat) : String :=
  if s.virtualResults.length > 1 then s!"pyresult[{place}]" else "pyresult"

/-- How the override reads the value that Python returned for a native parameter. -/
def pyResultExpr (s : TransformState) (index : Nat) : Except TransformError String := do
  let p ← s.arg index
  return s.pyResultAt ((s.virtualResults.findIdx? (· == .arg p.name)).getD 0)

/-- The parameters of the exposed function. -/
def exposedParams (s : TransformState) : List Param := s.exposed.map (·.2)

/-- The type of the exposed result: nothing, the type of the only value, or a tuple. -/
def exposedReturnType (s : TransformState) (g : DeclGraph) : String :=
  match s.results with
  | [] => "void"
  | [r] => g.spell r.type.removeCv
  | _ => "boost::python::tuple"

/-- A type of the Python library. -/
def isPythonType (t : CppType) : Bool :=
  match t.removeCv with
  | .named name => name.startsWith "boost::python::"
  | _ => false

/-- The type of the only result, if it is a C++ value whose ownership a call policy settles. -/
def nativeResult? (s : TransformState) : Option CppType :=
  match s.results with
  | [r] => if isPythonType r.type then none else some r.type
  | _ => none

/-- The declaration of a temporary. -/
def localDeclaration (g : DeclGraph) (l : LocalVar) : String :=
  let size := match l.size with
    | some n => s!"[{n}]"
    | none => ""
  let initializer := match l.initializer with
    | some e => s!" = {e}"
    | none => ""
  g.spell l.type ++ " " ++ l.name ++ size ++ initializer ++ ";"

/-- The declaration of a parameter. -/
def paramDeclaration (g : DeclGraph) (p : Param) : String :=
  g.spell p.type ++ " " ++ p.name ++
    match p.default? with
    | some d => "=" ++ d
    | none => ""

/-- The statement that returns the exposed results. -/
def returnStatement (results : List ResultExpr) : String :=
  match results with
  | [] => ""
  | [r] => s!"return {r.expr};"
  | many =>
    "return boost::python::make_tuple( " ++ ", ".intercalate (many.map (·.expr)) ++ " );"

/-- The code of the exposed function.  A member function takes its object first, of the class
`selfType`. -/
def exposedCode (s : TransformState) (g : DeclGraph) (selfType : Option String)
    (preCall postCall : List String) : CallCode where
  returnType := s.exposedReturnType g
  argList := ", ".intercalate
    ((selfType.map (· ++ " & self")).toList ++ s.exposedParams.map (paramDeclaration g))
  declarations := "\n".intercalate (s.exposedLocals.map (localDeclaration g))
  preCall := "\n\n".intercalate preCall
  postCall := "\n\n".intercalate postCall
  resultAssignment := match s.resultVar with
    | some name => name ++ " = "
    | none => ""
  inputParams := ", ".intercalate s.callParams
  returnStmt := returnStatement s.results

/-- The code of the override. -/
def overrideCode (s : TransformState) (g : DeclGraph) (preCall postCall : List String) :
    CallCode where
  returnType := g.spell s.nativeReturn
  argList := ", ".intercalate (s.nativeArgs.map (paramDeclaration g))
  declarations := "\n".intercalate (s.overrideLocals.map (localDeclaration g))
  preCall := "\n\n".intercalate preCall
  postCall := "\n\n".intercalate postCall
  resultAssignment := if s.virtualResults.isEmpty then "" else "pyresult = "
  inputParams := ", ".intercalate s.overrideParams
  returnStmt :=
    if s.nativeReturn.isVoid then ""
    else
      "return boost::python::extract< " ++ g.spell s.nativeReturn ++ " >( " ++
        s.pyResultAt ((s.virtualResults.findIdx? (· == .nativeReturn)).getD 0) ++ " );"
  resultType := if s.virtualResults.isEmpty then "void" else "boost::python::object"

end TransformState

end Bindery
