import Bindery.Decl.Dependency
import Bindery.Diagnostic
import Bindery.NameMap

/-!
# Dependencies on what is not exposed

A declaration of the module may depend on a class or enumeration that did not make it into the
module, and which Python then knows nothing about.  Such dependencies are reported, one message
for each missing declaration.

## Main definitions

* `UnexposedDependency` — a missing declaration and the dependencies on it.
* `DeclGraph.unexposed` — the missing declarations, in ascending order of full names.
* `DeclGraph.unexposedDiagnostics` — the messages.
-/

namespace Bindery

/-- The place of a reason in the order of dependencies. -/
def DependencyReason.rank : DependencyReason → Nat
  | baseClass => 0
  | defaultArgumentType => 1
  | returnType => 2
  | argumentType => 3
  | variableType => 4

/-- A declaration that is not exposed, and the dependencies of exposed declarations on it. -/
structure UnexposedDependency where
  target : DeclId
  dependents : List Dependency
  deriving DecidableEq, Repr, Inhabited

namespace DeclGraph

/-- A missing declaration of this sort deserves a report: a class that is more than a name, or an
enumeration.  Python knows the classes of the standard library, pairs apart. -/
def deservesReport (g : DeclGraph) (target : DeclId) (d : Declaration) : Bool :=
  match d.kind with
  | .cls c => !c.isOpaque && (!g.isStd target || d.name.startsWith "pair<")
  | .enum _ => !g.isStd target || d.name.startsWith "pair<"
  | _ => false

/-- The result of the function is an opaque pointer, so that Python need not know its type. -/
def isOpaqueResult (g : DeclGraph) (d : Dependency) : Bool :=
  d.reason == .returnType && (g.config d.source).callPolicy == some .returnOpaquePointer

/-- The dependency is on a missing declaration and deserves a report. -/
def isReportable (g : DeclGraph) (exported : List DeclId) (d : Dependency) :
    Except MissingDecl Bool := do
  if d.target ∈ exported then return false
  return g.deservesReport d.target (← g.decl d.target) && !g.isOpaqueResult d

/-- The order of the dependencies on one declaration: by the full name of the dependent, then by
numbers, then by the reason. -/
def dependencyLe (g : DeclGraph) (a b : Dependency) : Bool :=
  let na := g.fullName a.source
  let nb := g.fullName b.source
  na < nb || (na == nb && (a.source < b.source || (a.source == b.source &&
    (a.target < b.target || (a.target == b.target && a.reason.rank ≤ b.reason.rank)))))

/-- The dependencies of exposed declarations that deserve a report. -/
def reportable (g : DeclGraph) (exported : List DeclId) : Except MissingDecl (List Dependency) :=
  (exported.eraseDups.flatMap g.dependencies).filterM (g.isReportable exported)

/-- The dependencies whose targets have the given full name, as one group. -/
def unexposedGroup (g : DeclGraph) (dependencies : List Dependency) (name : String) :
    Option UnexposedDependency :=
  match dependencies.filter fun d => g.fullName d.target == name with
  | [] => none
  | d :: ds => some ⟨d.target, ((d :: ds).mergeSort g.dependencyLe).eraseDups⟩

/-- The missing declarations with the dependencies on them, in ascending order of full names. -/
def unexposed (g : DeclGraph) (exported : List DeclId) :
    Except MissingDecl (List UnexposedDependency) := do
  let dependencies ← g.reportable exported
  let names := (NameMap.ofList (dependencies.map fun d => (g.fullName d.target, ()))).names
  return names.filterMap (g.unexposedGroup dependencies)

/-- The message about one missing declaration. -/
def unexposedDiagnostic (g : DeclGraph) (u : UnexposedDependency) : Diagnostic where
  severity := .warning
  phase := "diagnose"
  message := "there are declarations, which depend on the unexposed one:" ++
    String.join (u.dependents.map fun d => s!"\n  {g.fullName d.source} ({d.reason.text})")
  location := some (g.fullName u.target)

/-- The messages about all missing declarations. -/
def unexposedDiagnostics (g : DeclGraph) (exported : List DeclId) :
    Except MissingDecl (List Diagnostic) := do
  return (← g.unexposed exported).map g.unexposedDiagnostic

end DeclGraph

end Bindery
