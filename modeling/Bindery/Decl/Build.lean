import Bindery.Decl.Graph

/-!
# Building declaration graphs

New declarations go to the end of the graph and are entered as members of their scope.

## Main definitions

* `DeclGraph.add` and its short forms for the kinds of declarations.
* `DeclGraph.addBase` — makes one class a base of another.
* `DeclGraph.modify` — changes one declaration.
-/

namespace Bindery.DeclGraph

/-- Changes one declaration; an id that does not exist changes nothing. -/
def modify (g : DeclGraph) (id : DeclId) (f : Declaration → Declaration) : DeclGraph :=
  ⟨g.decls.modify id f⟩

/-- Appends a declaration, and enters it as a member if `parent` is a namespace or class.  Returns
the number of the new declaration. -/
def add (g : DeclGraph) (parent : DeclId) (name : String) (kind : DeclKind) : DeclId × DeclGraph :=
  let id := g.size
  let extended : DeclGraph := ⟨g.decls.push { name, kind, parent := some parent }⟩
  (id, extended.modify parent fun d => { d with kind := d.kind.addMember id })

/-- Appends an empty namespace. -/
def addNamespace (g : DeclGraph) (parent : DeclId) (name : String) : DeclId × DeclGraph :=
  g.add parent name (.ns [])

/-- Appends an empty class. -/
def addClass (g : DeclGraph) (parent : DeclId) (name : String) : DeclId × DeclGraph :=
  g.add parent name (.cls {})

/-- Appends a function. -/
def addCallable (g : DeclGraph) (parent : DeclId) (name : String) (c : Callable) :
    DeclId × DeclGraph :=
  g.add parent name (.callable c)

/-- Appends a variable. -/
def addVariable (g : DeclGraph) (parent : DeclId) (name : String) (type : CppType) :
    DeclId × DeclGraph :=
  g.add parent name (.variable { type })

/-- Appends an enumeration. -/
def addEnum (g : DeclGraph) (parent : DeclId) (name : String) (values : List Enumerator) :
    DeclId × DeclGraph :=
  g.add parent name (.enum values)

/-- Makes `base` a base of `id`; nothing happens if `id` is no class. -/
def addBase (g : DeclGraph) (id base : DeclId) (access : Access) : DeclGraph :=
  g.modify id fun d =>
    match d.kind with
    | .cls c => { d with kind := .cls { c with bases := c.bases ++ [{ base, access }] } }
    | _ => d

end Bindery.DeclGraph
