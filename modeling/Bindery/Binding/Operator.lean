import Bindery.Binding.Method

/-!
# Operators

Operators are registered as expressions on operands.  A free operator belongs to the first of its
operands that is an object of a bound class.  Conversions to the types that Python knows become
special methods, all others implicit conversions.

## Main definitions

* `BindingSetup.registerMemberOperator`, `BindingSetup.registerFreeOperator`
* `BindingSetup.registerCast` — binds a conversion operator.
-/

namespace Bindery

/-- The special method to which a conversion to the given type corresponds. -/
def castMethod? (g : DeclGraph) (target : CppType) : Option String :=
  let isText :=
    target.isPointerToConst .char ||
      ["::std::string", "std::string"].contains (g.spell target.removeReference.removeCv)
  match target.removeReference.fundamental? with
  | some f =>
    if f.isIntegral then some "__int__"
    else if [Fundamental.float, .double, .longDouble].contains f then some "__float__"
    else if isText then some "__str__"
    else none
  | none => if isText then some "__str__" else none

namespace BindingSetup

open Binding

/-- An operand of an operator of the given class. -/
def operand (s : BindingSetup) (cls : DeclId) (t : CppType) : Operand :=
  match t.removeReference.removeCv with
  | .declared id => if id = cls then .self else .other (s.graph.fullName id)
  | other => .other (s.graph.spell other)

/-- Binds an operator that is a public member of a class. -/
def registerMemberOperator (s : BindingSetup) (cls : DeclId) (node : NodeId) (id : DeclId) :
    Binding Unit :=
  match s.graph.callable? id, s.graph.access? id with
  | some c, some .pub =>
    match c.kind.symbol? with
    | some symbol => do
      let right := c.args.head?.map fun a => s.operand cls a.type
      let _ ← place node (.operator { symbol, left := .self, right }) (some id)
      markExported id
    | none => return
  | _, _ => return

/-- The class of the first operand whose class is bound, with its registration. -/
def operatorOwner? (b : Binder) (c : Callable) : Option (DeclId × NodeId) :=
  c.args.findSome? fun a =>
    match a.type.removeReference.removeCv with
    | .declared cls => (b.classNode? cls).map (cls, ·)
    | _ => none

/-- Binds an operator that is no member of a class. -/
def registerFreeOperator (s : BindingSetup) (id : DeclId) (c : Callable) (symbol : String) :
    Binding Unit := do
  match operatorOwner? (← get) c with
  | none => s.warn id "free operator has no exported class operand"
  | some (cls, node) =>
    match c.args.map fun a => s.operand cls a.type with
    | [] => return
    | left :: rest =>
      let _ ← place node (.operator { symbol, left, right := rest.head? }) (some id)
      markExported id

/-- Binds a public conversion operator. -/
def registerCast (s : BindingSetup) (node : NodeId) (id : DeclId) : Binding Unit :=
  match s.graph.callable? id, s.graph.access? id with
  | some c, some .pub =>
    match castMethod? s.graph c.result with
    | some pythonName =>
      match s.graph.policy? s.rules id with
      | none => s.warn id noFunctionPolicy
      | some callPolicy => do
        let function := s.graph.fullName id
        let _ ← place node (.cast { pythonName, function, callPolicy }) (some id)
        markExported id
    | none =>
      match s.graph.parent? id with
      | none => return
      | some cls => do
        let target := s.graph.spell c.result.removeReference.removeCv
        let _ ← place node (.implicitConversion (s.graph.fullName cls) target) (some id)
        markExported id
  | _, _ => return

end BindingSetup

end Bindery
