import Bindery.Decl.Graph

/-!
# Structural dependencies

What a declaration needs in order to be bound: a class its bases, a function the types of its
result and parameters, a variable its type.

## Main definitions

* `Dependency`, `DependencyReason` — one declaration needs another, and why.
* `DeclGraph.dependencies` — everything a declaration needs.
-/

namespace Bindery

/-- Why one declaration needs another. -/
inductive DependencyReason
  | baseClass
  | defaultArgumentType
  | returnType
  | argumentType
  | variableType
  deriving DecidableEq, Repr, Inhabited

/-- The reason in words. -/
def DependencyReason.text : DependencyReason → String
  | baseClass => "base class"
  | defaultArgumentType => "default argument type"
  | returnType => "return type"
  | argumentType => "argument type"
  | variableType => "variable type"

/-- The declaration `source` needs the declaration `target`. -/
structure Dependency where
  source : DeclId
  target : DeclId
  reason : DependencyReason
  deriving DecidableEq, Repr, Inhabited

/-- The declarations that make a type usable: the one it is built on, or those the result and the
parameters of a function pointer are built on. -/
def CppType.requirements (t : CppType) : List DeclId :=
  match t.baseType with
  | .declared id => [id]
  | .functionPointer result args => (result :: args).filterMap CppType.declared?
  | _ => []

/-- What a parameter needs: its type, and once more for a default value that is no null pointer. -/
def Argument.requirements (a : Argument) : List (DeclId × DependencyReason) :=
  a.type.requirements.map (·, .argumentType) ++
    if a.default?.isSome && !a.hasNullPointerDefault then
      a.type.requirements.map (·, .defaultArgumentType)
    else []

/-- What a declaration of the given kind needs. -/
def DeclKind.requirements : DeclKind → List (DeclId × DependencyReason)
  | .cls c => c.bases.map fun b => (b.base, .baseClass)
  | .callable c =>
    ((c.returnType.map CppType.requirements).getD []).map (·, .returnType) ++
      c.args.flatMap Argument.requirements
  | .variable v => v.type.requirements.map (·, .variableType)
  | .typedef t => t.requirements.map (·, .variableType)
  | .ns _ | .enum _ => []

/-- Everything a declaration needs. -/
def DeclGraph.dependencies (g : DeclGraph) (id : DeclId) : List Dependency :=
  match g.kind? id with
  | some k => k.requirements.map fun r => ⟨id, r.1, r.2⟩
  | none => []

end Bindery
