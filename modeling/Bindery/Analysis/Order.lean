import Bindery.Decl.Hierarchy
import Bindery.NameMap

/-!
# The order of declarations

A class has to be registered behind its bases and behind the classes whose values are default
arguments of its functions.  The classes are visited depth first along these dependencies, each
list of choices in ascending order of full names; a dependency on a class whose visit is still
going on closes a cycle and is reported as a back edge.

## Main definitions

* `EmissionOrder` — declarations in order, with the back edges.
* `DeclGraph.classDependencies` — the classes that a class has to stand behind.
* `DeclGraph.sortClasses` — the order of classes.
* `DeclGraph.order` — the order of declarations of all sorts.
-/

namespace Bindery

/-- Declarations in the order of their registration.  A back edge is a class with a dependency
that could not be put in front of it. -/
structure EmissionOrder where
  declarations : List DeclId := []
  backEdges : List (DeclId × DeclId) := []
  deriving DecidableEq, Repr, Inhabited

/-- Visits a class that is not among the declarations yet: first what it depends on, then itself.
`path` holds the classes whose visits are going on; `fuel` bounds its length. -/
def EmissionOrder.visit (dependencies : DeclId → List DeclId) :
    Nat → List DeclId → DeclId → EmissionOrder → EmissionOrder
  | 0, _, _, o => o
  | fuel + 1, path, c, o =>
    let o := (dependencies c).foldl (fun o d =>
      if d ∈ c :: path then { o with backEdges := o.backEdges ++ [(c, d)] }
      else if d ∈ o.declarations then o
      else visit dependencies fuel (c :: path) d o) o
    { o with declarations := o.declarations ++ [c] }

namespace DeclGraph

/-- The declaration of the set that is the given one or the innermost around it. -/
def ownerIn? (g : DeclGraph) (set : List DeclId) (id : DeclId) : Option DeclId :=
  (id :: g.enclosing id).find? (· ∈ set)

/-- The classes whose values are default arguments of functions in the class. -/
def defaultArgumentClasses (g : DeclGraph) (id : DeclId) : List DeclId :=
  (g.descendants id).flatMap fun m =>
    match g.callable? m with
    | some c => c.args.filterMap fun a =>
        if a.default?.isSome && !a.hasNullPointerDefault then a.type.declared?.filter g.isClass
        else none
    | none => []

/-- The classes of the set that a class has to stand behind, in ascending order of full names; of
several classes with one name only the last counts. -/
def classDependencies (g : DeclGraph) (set : List DeclId) (id : DeclId) : List DeclId :=
  let owners := (g.bases id ++ g.defaultArgumentClasses id).filterMap fun d =>
    (g.ownerIn? set d).filter (· ≠ id)
  (NameMap.ofList (owners.map fun d => (g.fullName d, d))).values

/-- Ascending order of full names, and of numbers where the names agree. -/
def nameLe (g : DeclGraph) (a b : DeclId) : Bool :=
  g.fullName a < g.fullName b || (g.fullName a == g.fullName b && a ≤ b)

/-- The classes of a list, each once, behind what they depend on. -/
def sortClasses (g : DeclGraph) (classes : List DeclId) : EmissionOrder :=
  (classes.mergeSort g.nameLe).foldl (fun o c =>
    if c ∈ o.declarations then o
    else o.visit (g.classDependencies classes) (classes.length + 1) [] c) {}

/-- The groups of declarations that are registered one after the other. -/
inductive Group
  | enums | classes | constructors | functions | vars | others
  deriving DecidableEq, Repr

/-- All groups in their order. -/
def Group.all : List Group := [.enums, .classes, .constructors, .functions, .vars, .others]

/-- The group of a sort of declaration. -/
def Group.of : DeclKind → Group
  | .enum _ => enums
  | .cls _ => classes
  | .callable c => if c.isConstructor then constructors else functions
  | .variable _ => vars
  | .ns _ | .typedef _ => others

/-- The line on which a declaration stands. -/
def line (g : DeclGraph) (id : DeclId) : Nat :=
  match g.get? id with
  | some d => d.location.line
  | none => 0

/-- Orders the declarations of one group: classes by dependency, constructors by line, functions
and variables by name. -/
def orderGroup (g : DeclGraph) (group : Group) (ids : List DeclId) : EmissionOrder :=
  match group with
  | .classes => g.sortClasses ids
  | .constructors => { declarations := ids.mergeSort fun a b => g.line a ≤ g.line b }
  | .functions | .vars => { declarations := ids.mergeSort fun a b => g.name a ≤ g.name b }
  | .enums | .others => { declarations := ids }

/-- Declarations of all sorts in the order of their registration; all of them have to exist. -/
def order (g : DeclGraph) (ids : List DeclId) : Except MissingDecl EmissionOrder := do
  let grouped ← ids.mapM fun id => do return (id, Group.of (← g.decl id).kind)
  let parts := Group.all.map fun group =>
    g.orderGroup group ((grouped.filter (·.2 == group)).map (·.1))
  return {
    declarations := parts.flatMap (·.declarations)
    backEdges := parts.flatMap (·.backEdges) }

end DeclGraph

end Bindery
