import Bindery.Analysis.Exportability
import Bindery.Diagnostic

/-!
# Candidates

The declarations that a module offers: everything outside of classes that can be bound, in all
namespaces but `std` and those that the user ignores.  On the way every declaration that is not
left out without a word gets a verdict.

## Main definitions

* `DeclGraph.namespaceMembers` — the declarations that come into question.
* `DeclGraph.judge` — the verdicts on a declaration and on what is bound with it.
* `Candidates`, `DeclGraph.candidates` — the selection.
* `Candidates.diagnostics` — what the user is told about declarations that cannot be bound.
-/

namespace Bindery

/-- The declarations to bind, and the verdicts in the order in which they were reached. -/
structure Candidates where
  declarations : List DeclId := []
  judged : List (DeclId × Exportability) := []
  deriving DecidableEq, Repr, Inhabited

namespace DeclGraph

/-- The declarations of a namespace that are no namespaces, and those of the namespaces in it, at
most `depth` of them in one another. -/
def namespaceMembersWithin (g : DeclGraph) : Nat → DeclId → List DeclId
  | 0, _ => []
  | depth + 1, scope => (g.members scope).flatMap fun id =>
    if g.isStd id then []
    else
      match g.kind? id with
      | some (.ns _) => if (g.config id).ignore then [] else namespaceMembersWithin g depth id
      | _ => [id]

/-- The declarations outside of classes that come into question for a module. -/
def namespaceMembers (g : DeclGraph) : List DeclId := g.namespaceMembersWithin g.size root

/-- The verdicts on a declaration and, for a class that can be bound, on the members that are bound
with it, at most `depth` classes in one another.  What is left out without a word gets none. -/
def judgeWithin (g : DeclGraph) (options : ModuleOptions) :
    Nat → DeclId → Except MissingDecl (List (DeclId × Exportability))
  | 0, _ => return []
  | depth + 1, id => do
    if ← g.isExcluded id then return []
    let verdict ← g.exportability options id
    if verdict.isExportable && g.isClass id then
      let members ← (← g.candidateMembers id).mapM fun m => judgeWithin g options depth m
      return (id, verdict) :: members.flatten
    return [(id, verdict)]

/-- The verdicts on a declaration and on what is bound with it. -/
def judge (g : DeclGraph) (options : ModuleOptions) (id : DeclId) :
    Except MissingDecl (List (DeclId × Exportability)) :=
  g.judgeWithin options g.size id

/-- The declarations that a module offers. -/
def candidates (g : DeclGraph) (options : ModuleOptions) : Except MissingDecl Candidates := do
  let judged ← g.namespaceMembers.mapM fun id => do return (id, ← g.judge options id)
  return {
    declarations := judged.filterMap fun (id, verdicts) =>
      if (verdicts.lookup id).any (·.isExportable) then some id else none
    judged := judged.flatMap (·.2) }

end DeclGraph

/-- What the user is told about a verdict. -/
def verdictDiagnostic? (g : DeclGraph) (id : DeclId) : Exportability → Option Diagnostic
  | .no reason =>
    some {
      severity := .warning
      phase := "prepare"
      message := reason
      location := some (g.fullName id) }
  | _ => none

/-- What the user is told about the declarations that cannot be bound. -/
def Candidates.diagnostics (c : Candidates) (g : DeclGraph) : List Diagnostic :=
  c.judged.filterMap fun (id, verdict) => verdictDiagnostic? g id verdict

end Bindery
