import Bindery.Analysis.Exportability
import Bindery.Analysis.Policy
import Bindery.Code.Tree
import Bindery.Diagnostic
import Bindery.Text.Identifier
import Bindery.Transform.Transformer

/-!
# Binding declarations

Binding turns declarations into nodes of a code tree: a registration for each class, enumeration,
function and variable, and members of wrapper classes where Python cannot reach a function
directly.

## Main definitions

* `BindingSetup` — what a binding starts from: the declarations and the decisions about them.
* `Binder` — what has been bound so far; `Binding` is a computation that binds more.
* `BindError` — why a binding stops.
* `place`, `placeAt`, `placeBeforeBody` — new nodes in the tree.
* `BindingSetup.pythonName`, `BindingSetup.exposer`, `freshIn` — names for what is bound.
-/

namespace Bindery

/-- What is known about the exportability of declarations, the latest first. -/
abbrev Verdicts := List (DeclId × Exportability)

/-- What a binding starts from. -/
structure BindingSetup where
  graph : DeclGraph
  options : ModuleOptions
  /-- The verdicts already reached; a declaration without one is judged when it comes up. -/
  verdicts : Verdicts := []
  /-- The rules for the call policies of functions. -/
  rules : List PolicyRule := PolicyRule.chain
  deriving Repr, Inhabited

/-- Why a binding stops. -/
inductive BindError
  | missing (decl : MissingDecl)
  | tree (e : TreeError)
  | transform (e : TransformError)
  deriving DecidableEq, Repr

/-- A wrapper class with its node. -/
structure WrapperClass where
  node : NodeId
  name : String
  deriving DecidableEq, Repr, Inhabited

/-- What has been bound so far. -/
structure Binder where
  tree : CodeTree
  mangler : Text.Mangler := .empty
  /-- The registrations of classes. -/
  classNodes : List (DeclId × NodeId) := []
  /-- The wrapper classes of classes. -/
  wrappers : List (DeclId × WrapperClass) := []
  /-- The names that classes have asked to be made static. -/
  staticMethods : List (NodeId × String) := []
  /-- The names of generated functions, with their scopes. -/
  generated : List (String × String) := []
  /-- The declarations bound, in order. -/
  exported : List DeclId := []
  diagnostics : List Diagnostic := []
  deriving Repr, Inhabited

/-- A computation that binds declarations. -/
abbrev Binding (α : Type) := StateT Binder (Except BindError) α

instance : MonadLift (Except MissingDecl) (Except BindError) := ⟨Except.mapError .missing⟩

instance : MonadLift (Except TreeError) (Except BindError) := ⟨Except.mapError .tree⟩

instance : MonadLift (Except TransformError) (Except BindError) := ⟨Except.mapError .transform⟩

namespace Binder

/-- The wrapper class of a class, if it has one. -/
def wrapper? (b : Binder) (cls : DeclId) : Option WrapperClass := b.wrappers.lookup cls

/-- The registration of a class, if it has one. -/
def classNode? (b : Binder) (cls : DeclId) : Option NodeId := b.classNodes.lookup cls

end Binder

namespace Binding

/-! ### Nodes -/

/-- Edits the tree. -/
def editTree (edit : CodeTree → Except TreeError CodeTree) : Binding Unit := do
  let b ← get
  let tree ← edit b.tree
  set { b with tree }

/-- Adds a node that stands alone. -/
def newNode (kind : NodeKind) (decl : Option DeclId) : Binding NodeId :=
  modifyGet fun b =>
    let (id, tree) := b.tree.create kind decl
    (id, { b with tree })

/-- Adds a node as the last child of another. -/
def place (parent : NodeId) (kind : NodeKind) (decl : Option DeclId) : Binding NodeId := do
  let id ← newNode kind decl
  editTree (·.adopt parent id)
  return id

/-- Adds a node as the child of another, at a position. -/
def placeAt (parent : NodeId) (position : Nat) (kind : NodeKind) (decl : Option DeclId) :
    Binding NodeId := do
  let id ← newNode kind decl
  editTree (·.adoptAt parent id position)
  return id

/-- Adds a node in front of the module body. -/
def placeBeforeBody (kind : NodeKind) (decl : Option DeclId) : Binding NodeId := do
  let id ← newNode kind decl
  editTree (·.adoptBeforeBody id)
  return id

/-- Changes the registration of a class. -/
def updateClass (node : NodeId) (change : ClassNode → ClassNode) : Binding Unit :=
  editTree fun t =>
    match t.kind? node with
    | some (.cls c) => t.replaceKind node (.cls (change c))
    | _ => .ok t

/-- Notes the headers that the text of a node needs. -/
def addHeaders (node : NodeId) (headers : List String) : Binding Unit :=
  headers.forM fun h => editTree (·.addHeader node h)

/-! ### Names -/

/-- The identifier of a name; the name is remembered. -/
def identifier (name : String) : Binding String :=
  modifyGet fun b =>
    let (mangled, mangler) := b.mangler.mangle name
    (mangled, { b with mangler })

/-- A name that no generated function of the scope has yet: the wanted one, if it is free. -/
def freshIn (scope wanted : String) : Binding String :=
  modifyGet fun b =>
    let taken := (b.generated.filter (·.1 == scope)).map (·.2)
    let name := freshName taken wanted
    (name, { b with generated := (scope, name) :: b.generated })

/-! ### Results -/

/-- Notes that a declaration has been bound. -/
def markExported (id : DeclId) : Binding Unit :=
  modify fun b => { b with exported := b.exported ++ [id] }

/-- Asks for a name of a class to be made static; asking twice is asking once. -/
def requestStatic (node : NodeId) (pythonName : String) : Binding Unit :=
  modify fun b =>
    if (node, pythonName) ∈ b.staticMethods then b
    else { b with staticMethods := b.staticMethods ++ [(node, pythonName)] }

/-- The names of a class to be made static, which are then forgotten. -/
def takeStatic (node : NodeId) : Binding (List String) :=
  modifyGet fun b =>
    ((b.staticMethods.filter (·.1 == node)).map (·.2),
      { b with staticMethods := b.staticMethods.filter (·.1 != node) })

end Binding

namespace BindingSetup

/-- Tells the user that a declaration is left out. -/
def warn (s : BindingSetup) (id : DeclId) (message : String) : Binding Unit :=
  modify fun b => { b with
    diagnostics := b.diagnostics ++
      [{ severity := .warning, phase := "create", message,
         location := some (s.graph.fullName id) }] }

/-- The declaration takes part in the module. -/
def isExportable (s : BindingSetup) (id : DeclId) : Except MissingDecl Bool := do
  if ← s.graph.isExcluded id then return false
  match s.verdicts.lookup id with
  | some verdict => return verdict.isExportable
  | none => return (← s.graph.exportability s.options id).isExportable

/-- The name of a declaration in Python: its alias, made an identifier if it is none. -/
def pythonName (s : BindingSetup) (id : DeclId) : Binding String := do
  let name ← s.graph.pythonName id
  if Text.isIdentifier name then return name
  Binding.identifier name

/-- The identifier for the variables of a class's registration: its full name, made an
identifier. -/
def exposer (s : BindingSetup) (cls : DeclId) : Binding String :=
  Binding.identifier (DeclGraph.withoutRoot (s.graph.fullName cls))

/-- The wrapper class of a class, which is made when it is asked for the first time. -/
def wrapperOf (s : BindingSetup) (cls : DeclId) : Binding WrapperClass := do
  match (← get).wrapper? cls with
  | some w => return w
  | none =>
    let name := (← s.exposer cls) ++ "_wrapper"
    let node ← Binding.placeBeforeBody (.wrapper ⟨name, name, s.graph.fullName cls⟩) (some cls)
    if let some registration := (← get).classNode? cls then
      Binding.updateClass registration fun c => { c with wrapper := some name }
    modify fun b => { b with wrappers := (cls, ⟨node, name⟩) :: b.wrappers }
    return ⟨node, name⟩

end BindingSetup

end Bindery
