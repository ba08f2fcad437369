import Bindery.Code.Node
import Bindery.Decl.Codec
import Bindery.Json.Lenient

/-!
# Nodes from descriptions

A node can be described in JSON: an object with the sort of the node under `node`, and its parts in
fields.  A part that is missing is empty, or what is usual for it.

## Main definitions

* `NodeKind.ofJson?` — the node that is described.
-/

namespace Bindery

open Json.Lenient

/-- Reads the pieces of a call. -/
def CallCode.ofJson (j : Json) : CallCode where
  returnType := string j "return_type"
  argList := string j "arg_list"
  declarations := string j "declarations"
  preCall := string j "pre_call"
  postCall := string j "post_call"
  resultAssignment := string j "result_assignment"
  inputParams := string j "input_params"
  returnStmt := string j "return_stmt"
  resultType := string j "result_type"

/-- Reads the call policy in a field. -/
def CallPolicy.ofField (j : Json) (name : String) : CallPolicy :=
  (CallPolicy.ofJson? (get j name)).getD .default

/-- Reads a keyword; `none` says that its default value is an empty object. -/
def Keyword.ofJson (j : Json) : Keyword where
  name := string j "name"
  default? :=
    if bool j "none" then some .noneObject else (string? j "default").map KeywordDefault.literal

/-- Reads the keywords of a function. -/
def Keyword.listOfJson (j : Json) : List Keyword := (items j "keywords").map ofJson

/-- Reads the enumerators of an enumeration. -/
def EnumValue.listOfJson (j : Json) : List EnumValue :=
  (items j "values").map fun v => ⟨string v "alias", string v "full_name"⟩

/-- Reads how an argument is handed on. -/
def ArgPassing.ofText : String → ArgPassing
  | "ref" => .ref
  | "ptr" => .ptr
  | _ => .value

/-- Reads a parameter of a member of a wrapper class. -/
def ShimArg.ofJson (j : Json) : ShimArg where
  name := string j "name"
  type := string j "ty"
  default? := string? j "default"
  passing := .ofText (string j "passing")

/-- Reads the parameters of a member of a wrapper class. -/
def ShimArg.listOfJson (j : Json) : List ShimArg := (items j "args").map ofJson

/-- Reads how the registration of a function refers to it. -/
def MakerStyle.ofJson (j : Json) : MakerStyle :=
  match string j "style" with
  | "member" => .member
  | "pure_virtual" => .pureVirtual
  | "virtual" => .overridable (string j "default_function") (string? j "default_signature")
  | _ => .free

/-- Reads the sort of a member function of a wrapper class. -/
def ShimKind.ofText : String → ShimKind
  | "pure_virtual" => .pureVirtual
  | "protected" => .prot
  | "protected_static" => .protStatic
  | "protected_virtual" => .protOverridable
  | "protected_pure_virtual" => .protPureVirtual
  | "private_pure_virtual" => .privPureVirtual
  | _ => .overridable

/-- Reads which of the two functions a generated one is: without a target, a member that overrides
one. -/
def TransformedKind.ofJson (j : Json) : TransformedKind :=
  match string? j "call_target" with
  | some target => .function target
  | none =>
    .override (string j "class_full_name") (string j "base_args") (bool j "is_const")
      (bool j "returns_void")

/-- Reads an operand: the object itself, unless another type is given. -/
def Operand.ofJson (j : Json) : Operand :=
  match string? j "other" with
  | some type => .other type
  | none => .self

/-- Reads the kind of a container. -/
def ContainerKind.ofText : String → ContainerKind
  | "map" => .map
  | _ => .vector

/-- Reads a node. -/
def NodeKind.ofJson? (j : Json) : Option NodeKind :=
  let pythonName := string j "alias"
  let name := string j "name"
  let fullName := string j "full_name"
  let classFullName := string j "class_full_name"
  let documentation := string? j "documentation"
  let keywords := Keyword.listOfJson j
  let callPolicy := CallPolicy.ofField j "call_policy"
  let special : SpecialConstructorNode := ⟨string j "wrapper_alias", classFullName⟩
  match string j "node" with
  | "module" => some (.module name)
  | "module_body" => some (.moduleBody name)
  | "license" => some (.license (string j "text"))
  | "include" => some (.include (string j "header"))
  | "namespace_alias" => some (.namespaceAlias ⟨string j "alias", string j "namespace"⟩)
  | "custom_text" => some (.customText ⟨string j "text", bool j "works_on_instance"⟩)
  | "class" => some <| .cls {
      fullName, pythonName, documentation
      exposer := string j "exposer"
      wrapper := string? j "wrapper"
      bases := strings j "bases"
      noncopyable := bool j "noncopyable"
      noInit := bool j "no_init"
      alwaysExposeUsingScope := bool j "always_expose_using_scope" }
  | "class_wrapper" => some (.wrapper ⟨string j "alias", fullName, classFullName⟩)
  | "enum" => some <| .enum {
      fullName, pythonName
      values := EnumValue.listOfJson j
      exported := if has j "exported" then some (strings j "exported") else none }
  | "unnamed_enum" => some (.unnamedEnum (EnumValue.listOfJson j))
  | "maker" => some <| .maker {
      pythonName, fullName, documentation, keywords, callPolicy
      style := MakerStyle.ofJson j
      function := string j "function"
      signature := string? j "signature" }
  | "shim" => some <| .shim {
      kind := ShimKind.ofText (string j "shim")
      name, pythonName, classFullName
      returnType := string j "return_type"
      returnsVoid := bool j "returns_void"
      returnsReference := bool j "returns_reference"
      args := ShimArg.listOfJson j
      isConst := bool j "is_const" }
  | "transformed" => some <| .transformed {
      kind := TransformedKind.ofJson j
      name, pythonName
      code := CallCode.ofJson j }
  | "constructor" => some <| .constructor {
      argTypes := strings j "arg_types"
      optionalFrom := nat? j "optional_from"
      keywords, callPolicy, documentation }
  | "constructor_wrapper" =>
    some (.constructorWrapper ⟨special.wrapperAlias, classFullName, ShimArg.listOfJson j⟩)
  | "null_constructor_wrapper" => some (.nullConstructorWrapper special)
  | "copy_constructor_wrapper" => some (.copyConstructorWrapper special)
  | "static_method" => some (.staticMethod pythonName)
  | "operator" => some <| .operator {
      symbol := string j "symbol"
      left := Operand.ofJson (get j "left")
      right := if has j "right" then some (Operand.ofJson (get j "right")) else none }
  | "implicit_conversion" => some (.implicitConversion (string j "from") (string j "to"))
  | "casting_member_operator" => some (.cast ⟨pythonName, string j "function", callPolicy⟩)
  | "global_variable" => some (.globalVariable pythonName fullName)
  | "member_variable" =>
    some (.memberVariable ⟨pythonName, fullName, bool j "readonly", documentation⟩)
  | "property" => some <| .property {
      pythonName
      getter := string j "getter"
      setter := string? j "setter"
      getterPolicy := CallPolicy.ofField j "getter_policy"
      isStatic := bool j "is_static" }
  | "accessor" =>
    some (.accessor ⟨string j "member", classFullName, string j "ty", bool j "readonly",
      bool j "is_static"⟩)
  | "indexing_suite" => some <| .indexingSuite {
      container := string j "container"
      kind := ContainerKind.ofText (string j "container_kind")
      version := nat j "version" }
  | _ => none

end Bindery
