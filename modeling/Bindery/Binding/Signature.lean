import Bindery.Code.Node
import Bindery.Decl.Graph

/-!
# Signatures of bound functions

The texts that a registration derives from the parameters of a function: its keywords, the type to
which its address is cast, and the parameters of a wrapper's member that stands in for it.

## Main definitions

* `defaultsStart?` — where the parameters with default values begin.
* `keywordsOf` — the keywords of a registration.
* `DeclGraph.signature` — the type of a pointer to a function.
* `DeclGraph.shimArgs` — the parameters of a stand-in.
-/

namespace Bindery

/-- The place of the first of the parameters at the end that all have default values. -/
def defaultsStart? (args : List Argument) : Option Nat :=
  match (args.reverse.takeWhile (·.default?.isSome)).length with
  | 0 => none
  | count => some (args.length - count)

/-- The default value of a keyword: integers are cast to the type of the parameter. -/
def Argument.keywordDefault (a : Argument) (value : String) : KeywordDefault :=
  if a.hasNullPointerDefault then .noneObject
  else
    match a.type.fundamental? with
    | some f => .literal (if f.isIntegral then s!"({f.spelling})({value})" else value)
    | none => .literal value

/-- The keywords for the parameters of a function, behind one for its object if `ofObject` is
set. -/
def keywordsOf (config : ExportConfig) (args : List Argument) (ofObject : Bool := false) :
    List Keyword :=
  if !config.useKeywords || args.isEmpty then []
  else
    let start := if config.useDefaultArguments then defaultsStart? args else none
    let own := args.mapIdx fun i a => {
      name := a.nameAt i
      default? := if start.any (· ≤ i) then a.default?.map a.keywordDefault else none : Keyword }
    if ofObject then { name := "self" } :: own else own

namespace DeclGraph

/-- The type of a pointer to a function; `owner` is the class of a member function. -/
def signature (g : DeclGraph) (c : Callable) (owner : Option String) : String :=
  let args := ",".intercalate (c.argTypes.map g.spell)
  match owner with
  | some cls =>
    s!"{g.spell c.result} ( {cls}::* )( {args} )" ++ if c.isConst then " const" else ""
  | none => s!"{g.spell c.result} (*)( {args} )"

/-- The address of a function has to be cast to its type: the user wants it, or there are
others of the same name. -/
def needsSignature (g : DeclGraph) (id : DeclId) : Bool :=
  (g.config id).createWithSignature || !(g.overloads id).isEmpty

/-- How an argument of a type is handed to a Python override. -/
def passing (g : DeclGraph) (t : CppType) : ArgPassing :=
  if t.isReference && !t.isConstReference && t.removeReference.declared?.any g.isClass then .ref
  else if t.isPointer && t.pointee?.any g.isClassType then .ptr
  else .value

/-- The parameters of a member of a wrapper class that stands in for a function. -/
def shimArgs (g : DeclGraph) (c : Callable) : List ShimArg :=
  c.args.mapIdx fun i a => {
    name := a.nameAt i
    type := g.spell a.type
    default? := a.default?
    passing := g.passing a.type }

end DeclGraph

end Bindery
