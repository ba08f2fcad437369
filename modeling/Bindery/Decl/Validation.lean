import Bindery.Decl.Graph

/-!
# Validation of declaration graphs

A graph from outside is accepted when its ids resolve and its parent and member links agree.

## Main definitions

* `GraphError` — what can be wrong with a graph, `GraphError.message` says it in words.
* `DeclGraph.validate` — the check; it reports the first fault in the order of declarations.
-/

namespace Bindery

/-- Structural faults of a declaration graph. -/
inductive GraphError
  | unknownDecl (id : DeclId)
  | missingRoot
  | parentMismatch (child parent : DeclId)
  | notAScope (id : DeclId)
  | orphan (id : DeclId)
  | duplicateMember (id : DeclId)
  deriving DecidableEq, Repr, Inhabited

/-- The fault in words. -/
def GraphError.message : GraphError → String
  | unknownDecl id => s!"declaration #{id} does not exist"
  | missingRoot => "the first declaration must be the global namespace"
  | parentMismatch child parent =>
    s!"declaration #{child} names #{parent} as its parent, but #{parent} does not list it"
  | notAScope id => s!"declaration #{id} has members but is not a namespace or class"
  | orphan id => s!"declaration #{id} has no parent scope"
  | duplicateMember id => s!"declaration #{id} is listed as a member more than once"

namespace DeclGraph

/-- The declaration exists. -/
def checkKnown (g : DeclGraph) (id : DeclId) : Except GraphError Unit :=
  if id < g.size then .ok () else .error (.unknownDecl id)

/-- The first declaration is a namespace without a parent. -/
def checkRoot (g : DeclGraph) : Except GraphError Unit :=
  match g.get? root with
  | some { kind := .ns _, parent := none, .. } => .ok ()
  | _ => .error .missingRoot

/-- Each member of `id` exists, is listed for the first time and names `id` as its parent.
Returns the members met so far. -/
def checkMembers (g : DeclGraph) (id : DeclId) (seen : List DeclId) :
    List DeclId → Except GraphError (List DeclId)
  | [] => .ok seen
  | m :: rest => do
    g.checkKnown m
    if m ∈ seen then throw (.duplicateMember m)
    if g.parent? m ≠ some id then throw (.parentMismatch m id)
    checkMembers g id (m :: seen) rest

/-- The declaration has a parent that lists it; only the first declaration has none. -/
def checkParent (g : DeclGraph) (id : DeclId) : Except GraphError Unit :=
  match g.parent? id with
  | some p => do
    g.checkKnown p
    if id ∉ g.members p then
      throw (if g.isScope p then .parentMismatch id p else .notAScope p)
  | none => if id = root then .ok () else .error (.orphan id)

/-- The bases of a class exist. -/
def checkBases (g : DeclGraph) (id : DeclId) : Except GraphError Unit :=
  match g.class? id with
  | some c => c.bases.forM fun b => g.checkKnown b.base
  | none => .ok ()

/-- Checks the declarations one after the other. -/
def checkDecls (g : DeclGraph) (seen : List DeclId) : List DeclId → Except GraphError Unit
  | [] => .ok ()
  | id :: rest => do
    let seen ← g.checkMembers id seen (g.members id)
    g.checkParent id
    g.checkBases id
    checkDecls g seen rest

/-- Accepts a graph whose ids resolve and whose parent and member links agree. -/
def validate (g : DeclGraph) : Except GraphError Unit := do
  g.checkRoot
  g.checkDecls [] g.ids

end DeclGraph

end Bindery
