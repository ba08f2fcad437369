import Bindery.Decl.Graph

/-!
# Call policies

A function that hands out pointers or references needs a call policy, which says who owns the
result.  A policy that the user has chosen counts; otherwise the first rule of a chain that knows
the function decides.

## Main definitions

* `PolicyRule`, `PolicyRule.resolve` — the rules.
* `PolicyRule.chain` — the rules in their usual order.
* `DeclGraph.policy?` — the policy of a function.
* `DeclGraph.exposedPolicy?` — the policy of a function whose result is replaced.
-/

namespace Bindery

/-- A rule that knows the policy of some functions. -/
inductive PolicyRule
  /-- Values and C strings need no policy, nor do constructors with plain arguments. -/
  | value
  /-- References to constants are copied, and wide C strings are converted. -/
  | returnValue
  /-- Untyped pointers are passed on as they are. -/
  | voidPointer
  /-- An index operator hands out what its object holds. -/
  | indexOperator
  deriving DecidableEq, Repr, Inhabited

namespace PolicyRule

/-- The rules in their usual order. -/
def chain : List PolicyRule := [value, returnValue, voidPointer, indexOperator]

/-- The name of a rule. -/
def name : PolicyRule → String
  | value => "value"
  | returnValue => "return value"
  | voidPointer => "void pointer"
  | indexOperator => "index operator"

/-- The rule of the given name. -/
def ofName? (s : String) : Option PolicyRule := chain.find? (·.name == s)

/-- A fundamental type, a class, an enumeration or a C string. -/
def isValue (t : CppType) : Bool :=
  (t.removeCv matches .fundamental _ | .declared _) || t.isPointerToConst .char

/-- An argument that a constructor may take without a policy. -/
def isPlainArgument (g : DeclGraph) (t : CppType) : Bool :=
  isValue t.removeReference ||
    (t.isPointer && t.pointee?.any fun p => p.isFundamental || g.isEnumType p)

/-- The policy of an index operator with the given result: what a plain reference refers to is
copied, and what a class refers to lives in the object. -/
def indexPolicy (g : DeclGraph) (result : CppType) : CallPolicy :=
  let referent := result.removeReference
  if referent.isFundamental || g.isEnumType referent then
    if referent.isConst then .copyConstReference else .copyNonConstReference
  else .returnInternalReference

/-- The policy that a rule gives a function. -/
def resolve (g : DeclGraph) (c : Callable) : PolicyRule → Option CallPolicy
  | value =>
    if c.isConstructor then
      if c.args.all fun a => isPlainArgument g a.type then some .default else none
    else if isValue c.result then some .default
    else none
  | returnValue =>
    if c.isConstructor then none
    else if c.result.isConstReference then some .copyConstReference
    else if c.result.isPointerToConst .wChar then some .returnByValue
    else none
  | voidPointer =>
    if !c.isConstructor && c.result.isVoidPointer then some .returnOpaquePointer else none
  | indexOperator =>
    match c.kind with
    | .memberOperator "[]" => some (indexPolicy g c.result)
    | _ => none

/-- The policy that the first rule which knows the function gives it. -/
def resolveFirst (g : DeclGraph) (rules : List PolicyRule) (c : Callable) : Option CallPolicy :=
  rules.findSome? (resolve g c)

end PolicyRule

namespace DeclGraph

/-- The policy of a function: the one the user has chosen, or the one the rules give. -/
def policy? (g : DeclGraph) (rules : List PolicyRule) (id : DeclId) : Option CallPolicy :=
  (g.config id).callPolicy <|> (g.callable? id).bind (PolicyRule.resolveFirst g rules)

/-- The policy of a function that Python sees with another result.  Without a result nothing needs
a policy. -/
def exposedPolicy? (g : DeclGraph) (rules : List PolicyRule) (id : DeclId)
    (result : Option CppType) : Option CallPolicy :=
  (g.config id).callPolicy <|>
    match result with
    | none => some .default
    | some t =>
      (g.callable? id).bind fun c =>
        PolicyRule.resolveFirst g rules { c with returnType := some t }

end DeclGraph

end Bindery
