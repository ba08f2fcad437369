import Bindery.SupportHeader
import Bindery.Transform.State

/-!
# Transformers

A transformer changes how one argument crosses the border between Python and C++: an output
reference becomes part of the result, an input pointer becomes a value, a C array becomes a
sequence.

## Main definitions

* `Transformer` — an applied transformer with the names it uses.
* `TransformerSpec.apply` — applies a requested transformer to the state of a function.
* `Transformer.exposedPreCall` and its companions — the code around the two calls.
* `Transformation` — a function with all its transformers.
-/

namespace Bindery

/-- What an applied transformer works with. -/
inductive TransformerAction
  /-- The argument `name` of the given type is returned. -/
  | output (name : String) (type : CppType)
  | input
  /-- The argument `name` of the given type is passed and returned. -/
  | inout (name : String) (type : CppType)
  /-- A sequence is copied to an array. -/
  | inputArray (size : Nat) (name : String) (element : CppType) (array list : String)
  /-- An array is copied to a list; `object` holds the list that an override returned. -/
  | outputArray (size : Nat) (name : String) (element : CppType) (array list object : String)
  deriving DecidableEq, Repr, Inhabited

/-- An applied transformer. -/
structure Transformer where
  spec : TransformerSpec
  action : TransformerAction
  deriving DecidableEq, Repr, Inhabited

/-- The type of the value behind a pointer, reference or array. -/
def CppType.valueType (t : CppType) : CppType := (t.pointee?.getD t).removeCv

namespace TransformerSpec

/-! ### Applying -/

/-- The argument, which has to be a pointer or a reference. -/
def indirectArg (spec : TransformerSpec) (s : TransformState) : Except TransformError Param := do
  let p ← s.arg spec.arg
  if p.type.isPointer || p.type.isReference then return p
  else throw (.wrongType s.function spec p.name .pointerOrReference p.type)

/-- The argument, which has to be a pointer or an array. -/
def arrayArg (spec : TransformerSpec) (s : TransformState) : Except TransformError Param := do
  let p ← s.arg spec.arg
  if p.type.isPointer || p.type.isArray then return p
  else throw (.wrongType s.function spec p.name .pointerOrArray p.type)

/-- Takes the argument out of the parameters and returns it instead. -/
def applyOutput (spec : TransformerSpec) (s : TransformState) :
    Except TransformError (TransformerAction × TransformState) := do
  let p ← spec.indirectArg s
  let s ← s.removeArg spec.arg
  let value := p.type.valueType
  let (name, s) := s.declareLocal .exposed p.name value
  let s ← s.setCallParam spec.arg (if p.type.isPointer then "&" ++ name else name)
  let s ← s.addResult name value
  let s ← s.addVirtualResult spec.arg
  return (.output p.name p.type, s)

/-- Makes the argument a value of the same name. -/
def passByValue (index : Nat) (p : Param) (s : TransformState) :
    Except TransformError TransformState := do
  let s ← s.removeArg index
  let param : Param := { name := p.name, type := p.type.valueType }
  let s ← s.insertArg index param (if p.type.isPointer then "*" ++ p.name else p.name)
  s.setCallParam index (if p.type.isPointer then "&" ++ p.name else p.name)

/-- Makes the argument a value. -/
def applyInput (spec : TransformerSpec) (s : TransformState) :
    Except TransformError (TransformerAction × TransformState) := do
  let p ← spec.indirectArg s
  return (.input, ← passByValue spec.arg p s)

/-- Makes the argument a value that is returned as well. -/
def applyInout (spec : TransformerSpec) (s : TransformState) :
    Except TransformError (TransformerAction × TransformState) := do
  let p ← spec.indirectArg s
  let s ← passByValue spec.arg p s
  let s ← s.addResult p.name p.type.valueType
  let s ← s.addVirtualResult spec.arg
  return (.inout p.name p.type, s)

/-- Makes the argument a sequence of a fixed length. -/
def applyInputArray (spec : TransformerSpec) (size : Nat) (s : TransformState) :
    Except TransformError (TransformerAction × TransformState) := do
  let p ← spec.arrayArg s
  let element := p.type.valueType
  let s ← s.removeArg spec.arg
  let (list, s) := s.declareLocal .override ("py_" ++ p.name) TransformState.listType
  let s ← s.insertArg spec.arg { name := p.name, type := TransformState.objectType } list
  let (array, s) := s.declareLocal .exposed ("c_" ++ p.name) element (some size)
  let s ← s.setCallParam spec.arg array
  return (.inputArray size p.name element array list, s)

/-- Takes the argument out of the parameters and returns it as a list. -/
def applyOutputArray (spec : TransformerSpec) (size : Nat) (s : TransformState) :
    Except TransformError (TransformerAction × TransformState) := do
  let p ← spec.arrayArg s
  let element := p.type.valueType
  let s ← s.removeArg spec.arg
  let (array, s) := s.declareLocal .exposed ("c_" ++ p.name) element (some size)
  let (list, s) := s.declareLocal .exposed p.name TransformState.listType
  let s ← s.setCallParam spec.arg array
  let s ← s.addResult list TransformState.listType
  let (object, s) := s.declareLocal .override ("py_" ++ p.name) TransformState.objectType
  let s ← s.addVirtualResult spec.arg
  return (.outputArray size p.name element array list object, s)

/-- Applies a requested transformer to a function. -/
def apply (spec : TransformerSpec) (s : TransformState) :
    Except TransformError (Transformer × TransformState) := do
  let (action, s) ← match spec.kind with
    | .output => spec.applyOutput s
    | .input => spec.applyInput s
    | .inout => spec.applyInout s
    | .inputArray size => spec.applyInputArray size s
    | .outputArray size => spec.applyOutputArray size s
  return (⟨spec, action⟩, s)

end TransformerSpec

/-! ### Code fragments -/

namespace Transformer

/-- A name of the helpers for sequences. -/
def helper (name : String) : String := SupportHeader.convenience.nspace ++ "::" ++ name

/-- Checks that a Python value is a sequence of the given length and type. -/
def checkSequence (g : DeclGraph) (element : CppType) (source : String) (size : Nat) : String :=
  helper s!"ensure_uniform_sequence< {g.spell element} >( {source}, {size} );"

/-- Copies a sequence to an array. -/
def copySequence (source array : String) (size : Nat) : String :=
  helper s!"copy_sequence( {source}, " ++ helper s!"array_inserter( {array}, {size} ) );"

/-- Copies an array to a list. -/
def copyArray (array : String) (size : Nat) (list : String) : String :=
  helper s!"copy_container( {array}, {array} + {size}, " ++ helper s!"list_inserter( {list} ) );"

/-- Reads the value that Python returned for a parameter.  `what` names the sort of parameter. -/
def extraction (g : DeclGraph) (what : String) (index : Nat) (name : String) (type : CppType)
    (source : String) : String :=
  s!"// Extract the C++ value for {what} '{name}' (index: {index})\n" ++
  (if type.isPointer then "*" else "") ++ name ++ " = boost::python::extract< " ++
  g.spell type.valueType ++ " >( " ++ source ++ " );"

/-- What the exposed function does before the native call. -/
def exposedPreCall (t : Transformer) (g : DeclGraph) : Option String :=
  match t.action with
  | .inputArray size name element array _ =>
    some (checkSequence g element name size ++ "\n" ++ copySequence name array size)
  | _ => none

/-- What the exposed function does after the native call. -/
def exposedPostCall (t : Transformer) : Option String :=
  match t.action with
  | .outputArray size _ _ array list _ => some (copyArray array size list)
  | _ => none

/-- What the override does before the call of Python. -/
def overridePreCall (t : Transformer) : Option String :=
  match t.action with
  | .inputArray size name _ _ list => some (copyArray name size list)
  | _ => none

/-- What the override does after the call of Python. -/
def overridePostCall (t : Transformer) (g : DeclGraph) (s : TransformState) : Option String :=
  match s.pyResultExpr t.spec.arg with
  | .error _ => none
  | .ok source =>
    match t.action with
    | .output name type => some (extraction g "output argument" t.spec.arg name type source)
    | .inout name type => some (extraction g "in/out argument" t.spec.arg name type source)
    | .outputArray size name element _ _ object =>
      some (object ++ " = " ++ source ++ ";\n" ++ checkSequence g element object size ++ "\n" ++
        copySequence object name size)
    | .input | .inputArray .. => none

/-- The support headers that the fragments need. -/
def requiredHeaders (t : Transformer) : List String :=
  match t.action with
  | .inputArray .. | .outputArray .. => [SupportHeader.convenience.fileName]
  | _ => []

end Transformer

/-! ### Transformed functions -/

/-- A function with its transformers applied. -/
structure Transformation where
  state : TransformState
  transformers : List Transformer := []
  deriving DecidableEq, Repr, Inhabited

namespace Transformation

/-- Applies one more transformer. -/
def extend (t : Transformation) (spec : TransformerSpec) :
    Except TransformError Transformation := do
  let (applied, state) ← spec.apply t.state
  return { state, transformers := t.transformers ++ [applied] }

/-- Applies transformers to a function, in their order, and ends the edits. -/
def ofSpecs (function : String) (c : Callable) (specs : List TransformerSpec) :
    Except TransformError Transformation := do
  let t ← specs.foldlM extend { state := TransformState.ofCallable function c }
  return { t with state := t.state.freeze }

/-- The code of the exposed function.  What follows the call is in reverse order. -/
def exposedCode (t : Transformation) (g : DeclGraph) (selfType : Option String) : CallCode :=
  t.state.exposedCode g selfType (t.transformers.filterMap (·.exposedPreCall g))
    (t.transformers.reverse.filterMap (·.exposedPostCall))

/-- The code of the override.  What follows the call is in reverse order. -/
def overrideCode (t : Transformation) (g : DeclGraph) : CallCode :=
  t.state.overrideCode g (t.transformers.filterMap (·.overridePreCall))
    (t.transformers.reverse.filterMap (·.overridePostCall g t.state))

/-- The support headers that the code needs, each once. -/
def requiredHeaders (t : Transformation) : List String :=
  (t.transformers.flatMap (·.requiredHeaders)).eraseDups

end Transformation

end Bindery
