import Bindery.Analysis.Unexposed
import Bindery.Generation.Basic

/-!
# Checks of a finished module

## Main definitions

* `Check` — the checks; `Check.all` lists them in their usual order.
* `Generation.aliasClashes` — declarations of one scope with one name.
* `Check.diagnostics` — what a check finds.
-/

namespace Bindery

/-- What is checked once a module is bound. -/
inductive Check
  /-- Bound declarations may depend on others that are not bound. -/
  | unexposedDependency
  /-- Two declarations of one scope may have one name in Python. -/
  | duplicateAlias
  /-- Two names may have become one identifier. -/
  | nameCollision
  deriving DecidableEq, Repr, Inhabited

namespace Check

/-- The checks in their usual order. -/
def all : List Check := [unexposedDependency, duplicateAlias, nameCollision]

/-- The name of a check. -/
def name : Check → String
  | unexposedDependency => "unexposed-dependency"
  | duplicateAlias => "duplicate-alias"
  | nameCollision => "name-collision"

/-- The check of the given name. -/
def ofName? (s : String) : Option Check := all.find? (·.name == s)

end Check

/-- A declaration with the name that it has in Python. -/
structure ScopedAlias where
  id : DeclId
  scope : Option DeclId
  pythonName : String
  deriving DecidableEq, Repr, Inhabited

namespace DeclGraph

/-- The declaration has to have a name of its own: a class, enumeration or variable with a name.
Functions may share one. -/
def needsOwnAlias (g : DeclGraph) (id : DeclId) : Bool :=
  match g.get? id with
  | some d => (d.kind matches .cls _ | .enum _ | .variable _) && !d.name.isEmpty && !g.isStd id
  | none => false

/-- The declarations among the given ones that have to have names of their own, with the names. -/
def scopedAliases (g : DeclGraph) (ids : List DeclId) : Except MissingDecl (List ScopedAlias) :=
  (ids.eraseDups.filter g.needsOwnAlias).mapM fun id => do
    return ⟨id, g.parent? id, ← g.pythonName id⟩

/-- The message about two declarations with one name. -/
def aliasClash (g : DeclGraph) (first second : ScopedAlias) : Diagnostic where
  severity := .warning
  phase := "diagnose"
  message :=
    s!"alias '{second.pythonName}' is used by both {g.fullName first.id} and {g.fullName second.id}"
  location := some (g.fullName second.id)

/-- The messages about declarations whose name another one of their scope had before. -/
def aliasClashes (g : DeclGraph) (ids : List DeclId) : Except MissingDecl (List Diagnostic) := do
  let named ← g.scopedAliases ids
  return named.filterMap fun second =>
    match named.find? fun a => a.scope == second.scope && a.pythonName == second.pythonName with
    | some first => if first.id = second.id then none else some (g.aliasClash first second)
    | none => none

end DeclGraph

/-- The message about two names that became one identifier. -/
def Text.NameCollision.diagnostic (c : Text.NameCollision) : Diagnostic where
  severity := .warning
  phase := "diagnose"
  message := s!"'{c.first}' and '{c.second}' are both exposed as '{c.mangled}'"
  location := some c.second

/-- What a check finds. -/
def Check.diagnostics (s : Generation) : Check → Except MissingDecl (List Diagnostic)
  | unexposedDependency => s.graph.unexposedDiagnostics s.exported
  | duplicateAlias => s.graph.aliasClashes s.exported
  | nameCollision => .ok (s.collisions.map (·.diagnostic))

end Bindery
