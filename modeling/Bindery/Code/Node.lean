import Bindery.Decl.Config
import Bindery.Transform.CallCode

/-!
# Nodes of the code tree

The text of a module is a tree of nodes: registrations of classes, functions and variables, and the
wrapper classes they need.  A node holds names and types as text, so that writing it out asks for
nothing but the tree.

## Main definitions

* `NodeKind` — what a node writes, with a structure for each sort that has several parts.
* `NodeKind.isCompound` — the nodes that have children.
* `NodeKind.worksOnInstance` — the nodes whose text is a method call on a class object.
-/

namespace Bindery

/-- A short name for a namespace. -/
structure NamespaceAlias where
  name : String
  /-- The full name of the namespace. -/
  nspace : String
  deriving DecidableEq, Repr, Inhabited

/-- Text of the user; it may be a method call on the class object around it. -/
structure CustomText where
  text : String
  worksOnInstance : Bool := false
  deriving DecidableEq, Repr, Inhabited

/-- The registration of a class. -/
structure ClassNode where
  fullName : String
  pythonName : String
  /-- The identifier for the variables of the registration. -/
  exposer : String
  /-- The class that holds the values, if it is not the class itself. -/
  wrapper : Option String := none
  bases : List String := []
  noncopyable : Bool := false
  noInit : Bool := false
  documentation : Option String := none
  alwaysExposeUsingScope : Bool := false
  deriving DecidableEq, Repr, Inhabited

/-- A subclass through which Python overrides virtual functions. -/
structure WrapperNode where
  name : String
  /-- The name under which the module body knows the class. -/
  fullName : String
  classFullName : String
  deriving DecidableEq, Repr, Inhabited

/-- An enumerator with its name in Python. -/
structure EnumValue where
  pythonName : String
  fullName : String
  deriving DecidableEq, Repr, Inhabited

/-- The registration of an enumeration. -/
structure EnumNode where
  fullName : String
  pythonName : String
  values : List EnumValue := []
  /-- The enumerators that are visible around the enumeration; all of them if there is no list. -/
  exported : Option (List String) := none
  deriving DecidableEq, Repr, Inhabited

/-- How the registration of a function refers to it. -/
inductive MakerStyle
  /-- Registered in the module. -/
  | free
  /-- Registered in its class. -/
  | member
  /-- Registered as pure virtual. -/
  | pureVirtual
  /-- Registered with the default implementation in the wrapper class. -/
  | overridable (defaultFunction : String) (defaultSignature : Option String)
  deriving DecidableEq, Repr, Inhabited

/-- The default value of a keyword. -/
inductive KeywordDefault
  | literal (value : String)
  /-- An empty object, for null pointers. -/
  | noneObject
  deriving DecidableEq, Repr, Inhabited

/-- A parameter that may be passed by name. -/
structure Keyword where
  name : String
  default? : Option KeywordDefault := none
  deriving DecidableEq, Repr, Inhabited

/-- The registration of a function. -/
structure MakerNode where
  style : MakerStyle := .free
  pythonName : String
  fullName : String
  /-- The function whose address is taken. -/
  function : String
  /-- The type to which the address is cast. -/
  signature : Option String := none
  keywords : List Keyword := []
  callPolicy : CallPolicy := .default
  documentation : Option String := none
  deriving DecidableEq, Repr, Inhabited

/-- The sorts of member functions of a wrapper class. -/
inductive ShimKind
  /-- Calls a Python override or the function itself. -/
  | overridable
  /-- Calls a Python override. -/
  | pureVirtual
  /-- Makes a protected function accessible. -/
  | prot
  | protStatic
  | protOverridable
  | protPureVirtual
  | privPureVirtual
  deriving DecidableEq, Repr, Inhabited

namespace ShimKind

/-- The sort in words. -/
def describe : ShimKind → String
  | overridable => "virtual dispatch shim"
  | pureVirtual => "pure virtual adapter"
  | prot => "protected accessor"
  | protStatic => "protected static accessor"
  | protOverridable => "protected virtual dispatch shim"
  | protPureVirtual => "protected pure virtual adapter"
  | privPureVirtual => "private pure virtual adapter"

/-- Chooses between a Python override and the function itself. -/
def dispatches : ShimKind → Bool
  | overridable | protOverridable => true
  | _ => false

end ShimKind

/-- How an argument is handed to a Python override. -/
inductive ArgPassing
  | value
  /-- References to objects are not copied. -/
  | ref
  /-- Pointers to objects stay pointers. -/
  | ptr
  deriving DecidableEq, Repr, Inhabited

/-- A parameter of a member of a wrapper class. -/
structure ShimArg where
  name : String
  type : String
  default? : Option String := none
  passing : ArgPassing := .value
  deriving DecidableEq, Repr, Inhabited

/-- A member function of a wrapper class. -/
structure ShimNode where
  kind : ShimKind
  name : String
  pythonName : String
  classFullName : String
  returnType : String
  returnsVoid : Bool := false
  returnsReference : Bool := false
  args : List ShimArg := []
  isConst : Bool := false
  deriving DecidableEq, Repr, Inhabited

/-- The name of the default implementation. -/
def ShimNode.defaultName (s : ShimNode) : String := "default_" ++ s.pythonName

/-- The two functions that transformers generate. -/
inductive TransformedKind
  /-- A function that Python calls, and which calls `target`. -/
  | function (target : String)
  /-- A member of a wrapper class that calls a Python override, or else the base class. -/
  | override (classFullName baseArgs : String) (isConst returnsVoid : Bool)
  deriving DecidableEq, Repr, Inhabited

/-- A function generated by transformers. -/
structure TransformedNode where
  kind : TransformedKind
  /-- The name of the generated function. -/
  name : String
  pythonName : String
  code : CallCode
  deriving DecidableEq, Repr, Inhabited

/-- The registration of a constructor. -/
structure ConstructorNode where
  argTypes : List String := []
  /-- The place of the first parameter with a default value. -/
  optionalFrom : Option Nat := none
  keywords : List Keyword := []
  callPolicy : CallPolicy := .default
  documentation : Option String := none
  deriving DecidableEq, Repr, Inhabited

/-- A constructor of a wrapper class. -/
structure ConstructorWrapperNode where
  wrapperAlias : String
  classFullName : String
  args : List ShimArg := []
  deriving DecidableEq, Repr, Inhabited

/-- A constructor of a wrapper class without parameters of its own. -/
structure SpecialConstructorNode where
  wrapperAlias : String
  classFullName : String
  deriving DecidableEq, Repr, Inhabited

/-- An operand of an operator. -/
inductive Operand
  /-- The object of the registered class. -/
  | self
  | other (type : String)
  deriving DecidableEq, Repr, Inhabited

/-- The registration of an operator; a unary one has no right operand. -/
structure OperatorNode where
  symbol : String
  left : Operand
  right : Option Operand := none
  deriving DecidableEq, Repr, Inhabited

/-- The registration of a conversion operator as a method. -/
structure CastNode where
  pythonName : String
  function : String
  callPolicy : CallPolicy := .default
  deriving DecidableEq, Repr, Inhabited

/-- The registration of a member variable. -/
structure MemberVariableNode where
  pythonName : String
  fullName : String
  readonly : Bool := false
  documentation : Option String := none
  deriving DecidableEq, Repr, Inhabited

/-- The registration of a member variable through accessors. -/
structure PropertyNode where
  pythonName : String
  getter : String
  setter : Option String := none
  getterPolicy : CallPolicy := .default
  isStatic : Bool := false
  deriving DecidableEq, Repr, Inhabited

/-- The accessors of a member variable in a wrapper class. -/
structure AccessorNode where
  member : String
  classFullName : String
  type : String
  readonly : Bool := false
  isStatic : Bool := false
  deriving DecidableEq, Repr, Inhabited

namespace AccessorNode

/-- The name of the function that reads the variable. -/
def getterName (a : AccessorNode) : String := "get_" ++ a.member

/-- The name of the function that writes the variable. -/
def setterName (a : AccessorNode) : String := "set_" ++ a.member

end AccessorNode

/-- The containers for which the binding library has ready-made registrations. -/
inductive ContainerKind
  | vector
  | map
  deriving DecidableEq, Repr, Inhabited

/-- The registration of a container. -/
structure IndexingSuiteNode where
  container : String
  kind : ContainerKind
  version : Nat
  deriving DecidableEq, Repr, Inhabited

/-- The header with the registration of the container. -/
def IndexingSuiteNode.header (s : IndexingSuiteNode) : String :=
  match s.version, s.kind with
  | 1, .vector => "boost/python/suite/indexing/vector_indexing_suite.hpp"
  | 1, .map => "boost/python/suite/indexing/map_indexing_suite.hpp"
  | _, .vector => "indexing_suite/vector.hpp"
  | _, .map => "indexing_suite/map.hpp"

/-- What a node writes. -/
inductive NodeKind
  /-- The whole translation unit. -/
  | module (name : String)
  | license (text : String)
  | «include» (header : String)
  | namespaceAlias (n : NamespaceAlias)
  /-- The function in which everything is registered. -/
  | moduleBody (name : String)
  | customText (t : CustomText)
  | cls (c : ClassNode)
  | wrapper (w : WrapperNode)
  | enum (e : EnumNode)
  | unnamedEnum (values : List EnumValue)
  | maker (m : MakerNode)
  | shim (s : ShimNode)
  | transformed (t : TransformedNode)
  | constructor (c : ConstructorNode)
  | constructorWrapper (c : ConstructorWrapperNode)
  | nullConstructorWrapper (c : SpecialConstructorNode)
  | copyConstructorWrapper (c : SpecialConstructorNode)
  | staticMethod (pythonName : String)
  | operator (o : OperatorNode)
  | implicitConversion (source target : String)
  | cast (c : CastNode)
  | globalVariable (pythonName fullName : String)
  | memberVariable (v : MemberVariableNode)
  | property (p : PropertyNode)
  | accessor (a : AccessorNode)
  | indexingSuite (s : IndexingSuiteNode)
  deriving DecidableEq, Repr, Inhabited

namespace NodeKind

/-- The nodes that have children. -/
def isCompound : NodeKind → Bool
  | module _ | moduleBody _ | cls _ | wrapper _ => true
  | _ => false

/-- The nodes whose text is a method call on the class object around them. -/
def worksOnInstance : NodeKind → Bool
  | maker m => m.style != .free
  | customText t => t.worksOnInstance
  | constructor _ | staticMethod _ | operator _ | cast _ | memberVariable _ | property _
  | indexingSuite _ => true
  | _ => false

/-- The sort of node in words. -/
def describe : NodeKind → String
  | module _ => "module"
  | license _ => "license"
  | «include» _ => "include"
  | namespaceAlias _ => "namespace alias"
  | moduleBody _ => "module body"
  | customText _ => "custom text"
  | cls _ => "class"
  | wrapper _ => "wrapper class"
  | enum _ => "enumeration"
  | unnamedEnum _ => "unnamed enumeration"
  | maker _ => "maker"
  | shim s => s.kind.describe
  | transformed _ => "transformed function"
  | constructor _ => "constructor"
  | constructorWrapper _ => "constructor wrapper"
  | nullConstructorWrapper _ => "null constructor wrapper"
  | copyConstructorWrapper _ => "copy constructor wrapper"
  | staticMethod _ => "staticmethod"
  | operator _ => "operator"
  | implicitConversion .. => "implicit conversion"
  | cast _ => "casting member operator"
  | globalVariable .. => "global variable"
  | memberVariable _ => "member variable"
  | property _ => "property"
  | accessor _ => "accessor"
  | indexingSuite _ => "indexing suite"

end NodeKind

end Bindery
