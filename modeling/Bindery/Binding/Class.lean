import Bindery.Analysis.Order
import Bindery.Binding.Operator

/-!
# Classes

A class is registered with everything in it: first the members in their order, then the functions
of its bases that Python may override, then the constructors, which stand in front of all.

## Main definitions

* `BindingSetup.registerClass` — binds a class.
* `BindingSetup.inheritedMethods` — the functions of its bases that are bound for a class.
* `BindingSetup.registerConstructors` — binds the constructors of a class.
* `BindingSetup.registerMemberVariable` — binds a variable of a class.
* `BindingSetup.registerEnum` — binds an enumeration.
-/

namespace Bindery

namespace DeclGraph

/-- Python can make an object of the class without arguments: the class has a public destructor,
and no constructors or a public one without parameters.  Copy constructors do not count. -/
def isDefaultConstructible (g : DeclGraph) (cls : DeclId) : Bool :=
  let ctors := (g.callables cls).filter fun (_, c) => c.isConstructor && !c.isCopyConstructor
  g.hasPublicDestructor cls &&
    (ctors.isEmpty || ctors.any fun (id, c) => g.isPublic id && c.args.isEmpty)

end DeclGraph

/-- A function with the given access and virtuality is bound again for an heir of its class, so
that Python can override or call it there. -/
def isInheritable : Access → Virtuality → Bool
  | .pub, v => v.isVirtual
  | .prot, _ => true
  | .priv, v => v == .pure

namespace BindingSetup

open Binding

/-! ### Enumerations -/

/-- An enumerator with its name in Python. -/
def enumValue (s : BindingSetup) (id : DeclId) (config : ExportConfig) (name : String) :
    EnumValue where
  pythonName := (NameMap.find? config.valueAliases name).getD name
  fullName := s.graph.enumeratorFullName id name

/-- The enumerators that are visible around the enumeration: all of them, unless the user asks for
some and leaves out others. -/
def exportedValues (s : BindingSetup) (id : DeclId) (config : ExportConfig) (names : List String) :
    Option (List String) :=
  if config.exportValues.isEmpty || names.all config.exportValues.contains then none
  else some <|
    (names.filter config.exportValues.contains).map fun n => (s.enumValue id config n).pythonName

/-- Binds an enumeration. -/
def registerEnum (s : BindingSetup) (parent : NodeId) (id : DeclId)
    (enumerators : List Enumerator) :
    Binding Unit := do
  let config := s.graph.config id
  let names := enumerators.map (·.name)
  let values := names.map (s.enumValue id config)
  let kind ← if (s.graph.name id).isEmpty then pure (NodeKind.unnamedEnum values) else do
    let pythonName ← s.pythonName id
    pure (.enum {
      fullName := s.graph.fullName id
      pythonName, values
      exported := s.exportedValues id config names })
  let _ ← place parent kind (some id)
  markExported id

/-! ### Member variables -/

/-- A variable that is a pointer to an object. -/
def pointsToClass (s : BindingSetup) (v : VariableDecl) : Bool :=
  v.type.isPointer && v.type.pointee?.any s.graph.isClassType

/-- Binds a variable of a class.  Bit-fields have no address, and pointers to objects need an
owner, so both are reached through accessors in the wrapper class. -/
def registerMemberVariable (s : BindingSetup) (cls : DeclId) (node : NodeId) (id : DeclId)
    (v : VariableDecl) : Binding Unit := do
  let pythonName ← s.pythonName id
  if v.bits.isNone && !s.pointsToClass v then
    let _ ← place node
      (.memberVariable {
        pythonName
        fullName := s.graph.fullName id
        readonly := v.type.isConst
        documentation := (s.graph.config id).documentation })
      (some id)
    markExported id
  else
    let w ← s.wrapperOf cls
    let accessor : AccessorNode := {
      member := s.graph.name id
      classFullName := s.graph.fullName cls
      type := s.graph.spell v.type.removeCv
      readonly := v.type.isConst
      isStatic := v.isStatic }
    let _ ← place w.node (.accessor accessor) (some id)
    let _ ← place node
      (.property {
        pythonName
        getter := s!"{w.name}::{accessor.getterName}"
        setter := if accessor.readonly then none else some s!"{w.name}::{accessor.setterName}"
        getterPolicy := if s.pointsToClass v then .returnInternalReference else .default
        isStatic := v.isStatic })
      (some id)
    markExported id

/-! ### Inherited functions -/

/-- The functions of its bases that are bound for a class: those that Python has to be able to
override or call there, and that no nearer class declares again. -/
def inheritedMethods (s : BindingSetup) (cls : DeclId) : Except MissingDecl (List DeclId) :=
  let own := (s.graph.callables cls).map (·.1)
  let offered := ((s.graph.recursiveBases cls).flatMap s.graph.callables).filter fun (id, c) =>
    c.kind == .memberFunction && (s.graph.access? id).any (isInheritable · c.virtuality)
  offered.foldlM (fun found (id, _) => do
    unless ← s.isExportable id do return found
    return if (own ++ found).any (s.graph.sameSignature · id) then found else found ++ [id]) []

/-! ### Constructors -/

/-- The constructors of a class that Python may call: public ones that neither copy nor come from
the compiler. -/
def callableConstructors (s : BindingSetup) (cls : DeclId) :
    Except MissingDecl (List (DeclId × Callable)) :=
  (s.graph.callables cls).filterM fun (id, c) => do
    if !c.isConstructor || c.isCopyConstructor then return false
    let d ← s.graph.decl id
    if d.access ≠ .pub || d.isArtificial then return false
    s.isExportable id

/-- The conversion that a constructor with one parameter allows, if the user wants conversions. -/
def castingConversion? (s : BindingSetup) (cls : DeclId) (c : Callable) : Option NodeKind :=
  match c.args with
  | [a] =>
    if s.options.createCastingConstructor && !(c.kind matches .constructor _ true) then
      some (.implicitConversion (s.graph.spell a.type.removeReference.removeCv)
        (s.graph.fullName cls))
    else none
  | _ => none

/-- Registers a constructor with parameters at a position of its class.  Returns the next
position. -/
def registerConstructor (s : BindingSetup) (cls : DeclId) (node : NodeId) (position : Nat)
    (ctor : DeclId × Callable) : Binding Nat := do
  let (id, c) := ctor
  match s.graph.policy? s.rules id with
  | none =>
    s.warn id "missing call policy, the constructor is not exposed"
    return position
  | some callPolicy =>
    let config := s.graph.config id
    let _ ← placeAt node position
      (.constructor {
        argTypes := c.argTypes.map s.graph.spell
        optionalFrom := if config.useDefaultArguments then defaultsStart? c.args else none
        keywords := keywordsOf config c.args
        callPolicy
        documentation := config.documentation })
      (some id)
    markExported id
    if let some conversion := s.castingConversion? cls c then
      let _ ← place node conversion (some id)
    return position + 1

/-- The constructors of a wrapper class: one for each constructor of the class, one without
parameters if the class gets one from the compiler, and one that copies an object of the class. -/
def wrapperConstructors (s : BindingSetup) (cls : DeclId) (wrapper : String)
    (ctors : List (DeclId × Callable)) : Except MissingDecl (List NodeKind) := do
  let special : SpecialConstructorNode := ⟨wrapper, s.graph.fullName cls⟩
  let isNull := !ctors.any (·.2.args.isEmpty) && s.graph.isDefaultConstructible cls
  let isCopy := s.graph.hasTrivialCopy cls && !(← s.graph.isNoncopyable cls)
  return (if isNull then [.nullConstructorWrapper special] else []) ++
    ctors.map (fun (_, c) =>
      .constructorWrapper ⟨wrapper, s.graph.fullName cls, s.graph.shimArgs c⟩) ++
    (if isCopy then [.copyConstructorWrapper special] else [])

/-- Binds the constructors of a class.  No object can be made of an abstract class without a
wrapper. -/
def registerConstructors (s : BindingSetup) (cls : DeclId) (node : NodeId) : Binding Unit := do
  let wrapper := (← get).wrapper? cls
  let ctors ← s.callableConstructors cls
  unless s.graph.isAbstract cls && wrapper.isNone do
    let withArgs := ctors.filter fun (_, c) => !c.args.isEmpty
    let _ ← withArgs.foldlM (s.registerConstructor cls node) 0
  if let some w := wrapper then
    let kinds ← s.wrapperConstructors cls w.name ctors
    kinds.zipIdx.forM fun (kind, i) => do
      let _ ← placeAt w.node i kind (some cls)

/-! ### Classes -/

/-- The base classes that a registration names. -/
def boundBases (s : BindingSetup) (c : ClassDecl) : Except MissingDecl (List String) := do
  let bound ← c.bases.filterM fun b => do
    if b.access ≠ .pub || s.graph.isStd b.base then return false
    s.isExportable b.base
  return bound.map fun b => s.graph.fullName b.base

/-- The registration of a class before anything in it is bound. -/
def classNode (s : BindingSetup) (cls : DeclId) (c : ClassDecl) : Binding ClassNode := do
  let config := s.graph.config cls
  return {
    fullName := s.graph.fullName cls
    bases := ← s.boundBases c
    pythonName := ← s.pythonName cls
    exposer := ← s.exposer cls
    noncopyable := ← s.graph.isNoncopyable cls
    documentation := config.documentation
    alwaysExposeUsingScope :=
      s.options.alwaysExposeUsingScope || config.alwaysExposeUsingScope }

/-- The members of a class that are bound with it, in the order of their registration. -/
def boundMembers (s : BindingSetup) (cls : DeclId) : Except MissingDecl (List DeclId) := do
  let members ← (← s.graph.candidateMembers cls).filterM s.isExportable
  return (← s.graph.order members).declarations

/-- Binds a member of a class; `nested` binds classes. -/
def registerMember (s : BindingSetup) (nested : NodeId → DeclId → ClassDecl → Binding Unit)
    (cls : DeclId) (node : NodeId) (id : DeclId) : Binding Unit :=
  match s.graph.kind? id with
  | some (.cls c) => nested node id c
  | some (.enum values) => s.registerEnum node id values
  | some (.variable v) => s.registerMemberVariable cls node id v
  | some (.callable c) =>
    match c.kind with
    | .constructor .. | .destructor => return
    | .castingOperator => s.registerCast node id
    | .memberOperator symbol =>
      if (callOperators.lookup symbol).isSome then s.registerMethod cls node id
      else s.registerMemberOperator cls node id
    | _ => s.registerMethod cls node id
  | _ => return

/-- Adds texts of the user to a node. -/
def addCustomTexts (parent : NodeId) (worksOnInstance : Bool) (texts : List String) :
    Binding Unit :=
  texts.forM fun text => do
    let _ ← place parent (.customText { text, worksOnInstance }) none

/-- Binds everything that belongs to a class whose registration is in place. -/
def fillClass (s : BindingSetup) (nested : NodeId → DeclId → ClassDecl → Binding Unit)
    (cls : DeclId) (node : NodeId) : Binding Unit := do
  let config := s.graph.config cls
  (← s.boundMembers cls).forM (s.registerMember nested cls node)
  (← s.inheritedMethods cls).forM (s.registerMethod cls node)
  unless config.wrapperCode.isEmpty do
    addCustomTexts (← s.wrapperOf cls).node false config.wrapperCode
  s.registerConstructors cls node
  for pythonName in ← takeStatic node do
    let _ ← place node (.staticMethod pythonName) none
  addCustomTexts node true config.code

/-- Python cannot make objects of the class. -/
def hasNoInit (s : BindingSetup) (b : Binder) (cls : DeclId) : Bool :=
  !s.graph.isDefaultConstructible cls || (s.graph.isAbstract cls && (b.wrapper? cls).isNone)

/-- Binds a class with the classes nested in it, at most `depth` of them in one another. -/
def registerClass (s : BindingSetup) : Nat → NodeId → DeclId → ClassDecl → Binding Unit
  | 0, _, _, _ => return
  | depth + 1, parent, cls, c => do
    let registration ← s.classNode cls c
    let node ← place parent (.cls registration) (some cls)
    modify fun b => { b with classNodes := (cls, node) :: b.classNodes }
    markExported cls
    s.fillClass (fun p id c => registerClass s depth p id c) cls node
    let b ← get
    updateClass node fun r => { r with noInit := s.hasNoInit b cls }

end BindingSetup

end Bindery
