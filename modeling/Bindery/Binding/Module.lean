import Bindery.Binding.Class
import Bindery.Decl.Dependency

/-!
# Modules

A module binds the declarations it is given, in their order, then the containers of the standard
library that they use, and at last includes the headers that all of them need.

## Main definitions

* `BindingSetup.bind` — the binding of a list of declarations.
* `BindingSetup.registerContainers` — registrations of containers.
* `BindingSetup.includeHeaders` — the headers of a module.
-/

namespace Bindery

/-- The container that a name of the standard library is an instance of. -/
def containerKind? (name : String) : Option ContainerKind :=
  if name.startsWith "vector<" then some .vector
  else if name.startsWith "map<" then some .map
  else none

namespace BindingSetup

open Binding

/-! ### Declarations outside of classes -/

/-- Binds a variable outside of classes. -/
def registerGlobalVariable (s : BindingSetup) (body : NodeId) (id : DeclId) : Binding Unit := do
  let pythonName ← s.pythonName id
  let _ ← place body (.globalVariable pythonName (s.graph.fullName id)) (some id)
  markExported id

/-- Binds a function outside of classes that is not transformed. -/
def registerPlainFunction (s : BindingSetup) (body : NodeId) (id : DeclId) (c : Callable) :
    Binding Unit := do
  let config := s.graph.config id
  match s.graph.policy? s.rules id with
  | none => s.warn id noFunctionPolicy
  | some callPolicy =>
    let pythonName ← s.pythonName id
    let fullName := s.graph.fullName id
    let _ ← place body
      (.maker {
        style := .free
        pythonName, fullName
        function := fullName
        signature := if s.graph.needsSignature id then some (s.graph.signature c none) else none
        keywords := keywordsOf config c.args
        callPolicy
        documentation := config.documentation })
      (some id)
    markExported id

/-- Binds a transformed function outside of classes: Python calls an adapter in front of the module
body. -/
def registerTransformedFunction (s : BindingSetup) (body : NodeId) (id : DeclId) (c : Callable) :
    Binding Unit := do
  let config := s.graph.config id
  let fullName := s.graph.fullName id
  let pythonName ← s.pythonName id
  let t ← Transformation.ofSpecs fullName c config.transformers
  match s.graph.exposedPolicy? s.rules id t.state.nativeResult? with
  | none => s.warn id noFunctionPolicy
  | some callPolicy =>
    let name ← freshIn "" s!"_py_{pythonName}"
    let adapter ← placeBeforeBody
      (.transformed
        { kind := .function fullName, name, pythonName, code := t.exposedCode s.graph none })
      (some id)
    addHeaders adapter t.requiredHeaders
    let _ ← place body
      (.maker {
        style := .free
        pythonName, fullName
        function := name
        keywords := keywordsOf config t.args
        callPolicy
        documentation := config.documentation })
      (some id)
    markExported id

/-- Binds a declaration outside of classes. -/
def register (s : BindingSetup) (body : NodeId) (id : DeclId) : Binding Unit := do
  unless ← s.isExportable id do return
  match s.graph.kind? id with
  | some (.cls c) => s.registerClass (s.graph.size + 1) body id c
  | some (.enum values) => s.registerEnum body id values
  | some (.variable _) => s.registerGlobalVariable body id
  | some (.callable c) =>
    match c.kind with
    | .freeFunction =>
      if (s.graph.config id).transformers.isEmpty then s.registerPlainFunction body id c
      else s.registerTransformedFunction body id c
    | .freeOperator symbol => s.registerFreeOperator id c symbol
    | _ => return
  | _ => return

/-! ### Containers -/

/-- The container that a dependency is on. -/
def usedContainer? (s : BindingSetup) (target : DeclId) : Option (DeclId × ContainerKind) :=
  if s.graph.isClass target && s.graph.isStd target then
    (containerKind? (s.graph.name target)).map (target, ·)
  else none

/-- The containers that declarations use, by full name. -/
def usedContainers (s : BindingSetup) (ids : List DeclId) : NameMap (DeclId × ContainerKind) :=
  let targets := (ids.flatMap s.graph.dependencies).map (·.target)
  NameMap.ofList ((targets.filterMap s.usedContainer?).map fun u => (s.graph.fullName u.1, u))

/-- Binds a container, at a position of the module body. -/
def registerContainer (s : BindingSetup) (body : NodeId) (position : Nat) (fullName : String)
    (id : DeclId) (kind : ContainerKind) : Binding Unit := do
  let pythonName ← s.pythonName id
  let exposer ← s.exposer id
  let node ← placeAt body position (.cls { fullName, pythonName, exposer }) (some id)
  let suite : IndexingSuiteNode := {
    container := fullName
    kind
    version := s.options.indexingSuiteVersion }
  let _ ← place node (.indexingSuite suite) (some id)
  addHeaders node [suite.header]
  markExported id

/-- Binds the containers that the bound declarations use, in front of all other registrations. -/
def registerContainers (s : BindingSetup) (body : NodeId) : Binding Unit := do
  let containers := s.usedContainers (← get).exported
  containers.zipIdx.forM fun ((fullName, id, kind), position) =>
    s.registerContainer body position fullName id kind

/-! ### Headers -/

/-- The headers that hold the bound declarations. -/
def declaringHeaders (s : BindingSetup) (ids : List DeclId) : List String :=
  ids.filterMap fun id =>
    match s.graph.get? id with
    | some d =>
      if d.location.file.isEmpty || s.graph.isStd id then none else some d.location.file
    | none => none

/-- The headers of a module: those that the user has chosen, or else those that hold the bound
declarations; and those that the texts of nodes need. -/
def moduleHeaders (s : BindingSetup) (b : Binder) : Except TreeError (List String) := do
  let chosen := if s.options.includes.isEmpty then s.declaringHeaders b.exported
    else s.options.includes
  return (chosen ++ (← b.tree.requiredHeaders CodeTree.root)).eraseDups

/-- Includes the headers of a module. -/
def includeHeaders (s : BindingSetup) : Binding Unit := do
  let headers ← s.moduleHeaders (← get)
  headers.forM fun h => editTree fun t =>
    match t.addInclude h with
    | (.ok (), t) => .ok t
    | (.error e, _) => .error e

/-! ### The module -/

/-- Binds declarations, in their order, and whatever they need. -/
def bindAll (s : BindingSetup) (body : NodeId) (ids : List DeclId) : Binding Unit := do
  ids.forM (s.register body)
  s.registerContainers body
  s.includeHeaders

/-- The binding of a list of declarations. -/
def bind (s : BindingSetup) (ids : List DeclId) : Except BindError Binder := do
  let tree ← CodeTree.ofModule s.options.name s.options.license s.options.bindingNamespace
  match tree.body? with
  | none => throw (.tree (.unknownNode CodeTree.root))
  | some body => return (← (s.bindAll body ids).run { tree }).2

end BindingSetup

end Bindery
