import Bindery.Binding.Basic
import Bindery.Binding.Signature

/-!
# Member functions

A public function that is not virtual is registered by its address.  Every other one that Python
may call or override needs a stand-in in the wrapper class; a transformed one needs an adapter
there, a static function with the signature that Python sees.

## Main definitions

* `Exposure` — how a member function comes within reach of Python.
* `Method` — a member function with its names.
* `Method.reference` — what the registration of a function refers to.
* `Method.adapter`, `Method.standIn?` — the generated functions of a transformed one.
* `BindingSetup.registerMethod` — binds a member function.
-/

namespace Bindery

/-- How a member function comes within reach of Python. -/
inductive Exposure
  /-- Its own address is registered. -/
  | direct
  /-- A member of the wrapper class stands in for it. -/
  | shim (kind : ShimKind)
  /-- It stays out of reach. -/
  | hidden
  deriving DecidableEq, Repr, Inhabited

/-- How a function of the given access comes within reach: of the private ones only those that
are pure virtual, which every heir has to implement. -/
def Exposure.of (access : Access) (c : Callable) : Exposure :=
  match access, c.virtuality, c.isStatic with
  | .priv, .pure, _ => shim .privPureVirtual
  | .priv, _, _ => hidden
  | .pub, .notVirtual, _ => direct
  | .pub, .overridable, _ => shim .overridable
  | .pub, .pure, _ => shim .pureVirtual
  | .prot, _, true => shim .protStatic
  | .prot, .notVirtual, false => shim .prot
  | .prot, .overridable, false => shim .protOverridable
  | .prot, .pure, false => shim .protPureVirtual

/-- A member function with its names. -/
structure Method where
  id : DeclId
  decl : Declaration
  callable : Callable
  fullName : String
  /-- The full name of the class that declares it. -/
  declaring : String
  /-- Its name in Python. -/
  pythonName : String
  deriving DecidableEq, Repr, Inhabited

/-- What Python calls in place of a transformed member function. -/
structure Adapter where
  /-- The name it has if no other function has it. -/
  wanted : String
  /-- The class of the object it takes; a static function takes none. -/
  self? : Option String
  /-- What it calls. -/
  callee : String
  deriving DecidableEq, Repr, Inhabited

namespace Method

/-- The type to which an address in the class `owner` is cast, if it has to be. -/
def signature? (m : Method) (g : DeclGraph) (owner : String) : Option String :=
  if g.needsSignature m.id then
    some (g.signature m.callable (if m.callable.isStatic then none else some owner))
  else none

/-- The stand-in of a member function. -/
def shim (m : Method) (g : DeclGraph) (kind : ShimKind) : ShimNode where
  kind
  name := m.decl.name
  pythonName := m.pythonName
  classFullName := m.declaring
  returnType := g.spell m.callable.result
  returnsVoid := m.callable.result.isVoid
  returnsReference := m.callable.result.isReference
  args := g.shimArgs m.callable
  isConst := m.callable.isConst

/-- The style of the registration, the function it refers to and the type to which its address is
cast.  Stand-ins for protected functions are referred to themselves. -/
def reference (m : Method) (g : DeclGraph) (wrapper : String) :
    Exposure → MakerStyle × String × Option String
  | .shim .overridable =>
    (.overridable s!"{wrapper}::default_{m.pythonName}" (m.signature? g wrapper), m.fullName,
      m.signature? g m.declaring)
  | .shim .pureVirtual => (.pureVirtual, m.fullName, m.signature? g m.declaring)
  | .shim .prot | .shim .protStatic =>
    (.member, s!"{wrapper}::{m.decl.name}", m.signature? g wrapper)
  | .shim .protOverridable =>
    (.member, s!"{wrapper}::default_{m.pythonName}", m.signature? g wrapper)
  | .shim .protPureVirtual =>
    (.pureVirtual, s!"{wrapper}::{m.decl.name}", m.signature? g wrapper)
  | .direct | .hidden | .shim .privPureVirtual =>
    (.member, m.fullName, m.signature? g m.declaring)

/-- The registration of a member function that is not transformed. -/
def maker (m : Method) (g : DeclGraph) (wrapper : String) (exposure : Exposure)
    (callPolicy : CallPolicy) : MakerNode :=
  let (style, function, signature) := m.reference g wrapper exposure
  { style, function, signature, callPolicy
    pythonName := m.pythonName
    fullName := m.fullName
    keywords := keywordsOf m.decl.config m.callable.args
    documentation := m.decl.config.documentation }

/-- What a C++ caller of a transformed function meets in the wrapper class: pure virtual functions
keep their stand-in, and virtual ones get an override that turns the results of Python back. -/
def standIn? (m : Method) (g : DeclGraph) (t : Transformation) : Exposure → Option NodeKind
  | .shim .overridable | .shim .protOverridable =>
    some <| .transformed {
      kind := .override m.declaring (", ".intercalate m.callable.argNames) m.callable.isConst
        m.callable.result.isVoid
      name := m.decl.name
      pythonName := m.pythonName
      code := t.overrideCode g }
  | .shim .prot | .shim .protStatic => none
  | .shim kind => some (.shim (m.shim g kind))
  | .direct | .hidden => none

/-- What Python calls in place of a transformed member function. -/
def adapter (m : Method) (wrapper : String) : Exposure → Adapter
  | .shim .overridable | .shim .protOverridable =>
    { wanted := s!"default_{m.pythonName}"
      self? := some wrapper
      callee := s!"self.{m.declaring}::{m.decl.name}" }
  | .shim .pureVirtual =>
    { wanted := s!"_py_{m.pythonName}"
      self? := some m.declaring
      callee := s!"self.{m.decl.name}" }
  | .shim .protPureVirtual =>
    { wanted := s!"_py_{m.pythonName}"
      self? := some wrapper
      callee := s!"self.{m.decl.name}" }
  | exposure =>
    { wanted := s!"_py_{m.pythonName}"
      self? :=
        if m.callable.isStatic then none
        else if exposure = .direct then some m.declaring
        else some wrapper
      callee := if m.callable.isStatic then m.fullName else s!"self.{m.decl.name}" }

end Method

/-- The parameters that Python sees of a transformed function. -/
def Transformation.args (t : Transformation) : List Argument :=
  t.state.exposedParams.map fun p => { name := p.name, type := p.type, default? := p.default? }

/-- What a user is told of a function whose ownership rule is not known. -/
def noFunctionPolicy : String := "missing call policy, the function is not exposed"

namespace BindingSetup

open Binding

/-- The name of a member function in Python.  Call operators have the names of Python's special
methods, unless the user has chosen another. -/
def methodAlias (s : BindingSetup) (id : DeclId) (c : Callable) : Binding String :=
  match (s.graph.config id).pythonName, c.kind.symbol?.bind (List.lookup · callOperators) with
  | none, some name => return name
  | _, _ => s.pythonName id

/-- A member function with its names; `cls` is the class it is bound for. -/
def method (s : BindingSetup) (cls id : DeclId) (decl : Declaration) (callable : Callable) :
    Binding Method := do
  return {
    id, decl, callable
    pythonName := ← s.methodAlias id callable
    fullName := s.graph.fullName id
    declaring := s.graph.fullName (decl.parent.getD cls) }

/-- Registers a member function in its class. -/
def registerMaker (node : NodeId) (m : Method) (maker : MakerNode) : Binding Unit := do
  let _ ← place node (.maker maker) (some m.id)
  if m.callable.isStatic then requestStatic node m.pythonName
  markExported m.id

/-- Binds a member function that is not transformed. -/
def registerPlainMethod (s : BindingSetup) (cls : DeclId) (node : NodeId) (m : Method)
    (exposure : Exposure) : Binding Unit := do
  let wrapper ← match exposure with
    | .shim kind => do
      let w ← s.wrapperOf cls
      let _ ← place w.node (.shim (m.shim s.graph kind)) (some m.id)
      pure w.name
    | _ => pure ""
  if exposure = .shim .privPureVirtual then return
  match s.graph.policy? s.rules m.id with
  | none => s.warn m.id noFunctionPolicy
  | some policy => registerMaker node m (m.maker s.graph wrapper exposure policy)

/-- Binds a transformed member function. -/
def registerTransformedMethod (s : BindingSetup) (cls : DeclId) (node : NodeId) (m : Method)
    (exposure : Exposure) : Binding Unit := do
  let w ← s.wrapperOf cls
  let t ← Transformation.ofSpecs m.fullName m.callable m.decl.config.transformers
  addHeaders w.node t.requiredHeaders
  if let some kind := m.standIn? s.graph t exposure then
    let _ ← place w.node kind (some m.id)
  if exposure = .shim .privPureVirtual then return
  match s.graph.exposedPolicy? s.rules m.id t.state.nativeResult? with
  | none => s.warn m.id noFunctionPolicy
  | some callPolicy =>
    let a := m.adapter w.name exposure
    let name ← freshIn w.name a.wanted
    let _ ← place w.node
      (.transformed {
        kind := .function a.callee
        name
        pythonName := m.pythonName
        code := t.exposedCode s.graph a.self? })
      (some m.id)
    registerMaker node m {
      style := .member
      pythonName := m.pythonName
      fullName := m.fullName
      function := s!"{w.name}::{name}"
      keywords := keywordsOf m.decl.config t.args a.self?.isSome
      callPolicy
      documentation := m.decl.config.documentation }

/-- Binds a member function for a class, which declares or inherits it. -/
def registerMethod (s : BindingSetup) (cls : DeclId) (node : NodeId) (id : DeclId) :
    Binding Unit := do
  let d ← s.graph.decl id
  match d.kind with
  | .callable c =>
    let exposure := Exposure.of d.access c
    if exposure = .hidden then return
    let m ← s.method cls id d c
    if d.config.transformers.isEmpty then s.registerPlainMethod cls node m exposure
    else s.registerTransformedMethod cls node m exposure
  | _ => return

end BindingSetup

end Bindery
