import Bindery.Decl.Validation
import Bindery.Json.Decode
import Bindery.Json.Reader
import Bindery.Json.Writer

/-!
# The JSON form of declaration graphs

Graphs are exchanged as JSON.  Writing states every field; reading fills in what is left out and
passes over fields it does not know.

## Main definitions

* `CppType.toJson`, `CppType.ofJson?` — types.
* `ExportConfig.toJson`, `ExportConfig.ofJson?` — the user's decisions.
* `Callable.toJson`, `Callable.ofJson?` — functions.
* `DeclGraph.toText`, `DeclGraph.ofText` — whole graphs; reading checks the graph as well.
-/

namespace Bindery

open Json (Decoder Setting)

/-- The value of a list that goes by the given text. -/
def findByText {α : Type} (text : α → String) (all : List α) (s : String) : Option α :=
  all.find? fun a => text a == s

/-! ### Types -/

namespace Fundamental

/-- All fundamental types. -/
def all : List Fundamental :=
  [void, bool, char, signedChar, unsignedChar, wChar, short, unsignedShort, int, unsignedInt,
   long, unsignedLong, longLong, unsignedLongLong, float, double, longDouble]

/-- The name of the type in JSON. -/
def tag : Fundamental → String
  | void => "void"
  | bool => "bool"
  | char => "char"
  | signedChar => "signed_char"
  | unsignedChar => "unsigned_char"
  | wChar => "w_char"
  | short => "short"
  | unsignedShort => "unsigned_short"
  | int => "int"
  | unsignedInt => "unsigned_int"
  | long => "long"
  | unsignedLong => "unsigned_long"
  | longLong => "long_long"
  | unsignedLongLong => "unsigned_long_long"
  | float => "float"
  | double => "double"
  | longDouble => "long_double"

/-- Reads a fundamental type. -/
def ofJson? (setting : Setting) : Decoder Fundamental := fun j =>
  (Json.variant? setting j).bind (findByText tag all)

end Fundamental

namespace CppType

mutual

/-- The JSON form of a type: an object with one field that names the outermost layer. -/
def toJson : CppType → Json
  | fundamental f => .obj [("fundamental", .str f.tag)]
  | declared id => .obj [("declared", .nat id)]
  | named name => .obj [("named", .str name)]
  | pointer base => .obj [("pointer", toJson base)]
  | reference base => .obj [("reference", toJson base)]
  | const base => .obj [("const", toJson base)]
  | volatile base => .obj [("volatile", toJson base)]
  | array base size => .obj [("array", .obj [("base", toJson base), ("size", .ofOption .nat size)])]
  | functionPointer result args =>
    .obj [("function_pointer",
      .obj [("return_type", toJson result), ("arguments", .arr (toJsons args))])]

/-- The JSON forms of a list of types. -/
def toJsons : List CppType → List Json
  | [] => []
  | t :: ts => toJson t :: toJsons ts

end

mutual

/-- Reads a type. -/
def ofJson? (setting : Setting) : Json → Option CppType
  | .obj [(layer, j)] =>
    if layer == "fundamental" then (Fundamental.ofJson? setting j).map fundamental
    else if layer == "declared" then (Json.word32? j).map declared
    else if layer == "named" then (Json.str? j).map named
    else if layer == "pointer" then (ofJson? setting j).map pointer
    else if layer == "reference" then (ofJson? setting j).map reference
    else if layer == "const" then (ofJson? setting j).map const
    else if layer == "volatile" then (ofJson? setting j).map volatile
    else if layer == "array" then arrayOfJson? setting j
    else if layer == "function_pointer" then functionPointerOfJson? setting j
    else none
  | _ => none

/-- Reads what the array layer holds: the type of the items, and their number if it is known. -/
def arrayOfJson? (setting : Setting) : Json → Option CppType
  | .obj fields => do
    let r ← Json.record? ["base", "size"] (.obj fields)
    return array (← typeAt? setting "base" fields) (← r.optional "size" Json.word64?)
  | .arr [base, size] => do
    return array (← ofJson? setting base) (← Json.nullable? Json.word64? size)
  | _ => none

/-- Reads what the function pointer layer holds: the types of the result and the parameters. -/
def functionPointerOfJson? (setting : Setting) : Json → Option CppType
  | .obj fields => do
    let _ ← Json.record? ["return_type", "arguments"] (.obj fields)
    return functionPointer (← typeAt? setting "return_type" fields)
      (← typesAt? setting "arguments" fields)
  | .arr [result, .arr args] => do
    return functionPointer (← ofJson? setting result) (← ofJsons? setting args)
  | _ => none

/-- Reads the types of an array. -/
def ofJsons? (setting : Setting) : List Json → Option (List CppType)
  | [] => some []
  | j :: rest => do return (← ofJson? setting j) :: (← ofJsons? setting rest)

/-- Reads the type in the first field of the given name. -/
def typeAt? (setting : Setting) (name : String) : List (String × Json) → Option CppType
  | [] => none
  | (key, j) :: rest => if key == name then ofJson? setting j else typeAt? setting name rest

/-- Reads the types in the first field of the given name. -/
def typesAt? (setting : Setting) (name : String) :
    List (String × Json) → Option (List CppType)
  | [] => none
  | (key, .arr items) :: rest =>
    if key == name then ofJsons? setting items else typesAt? setting name rest
  | (key, _) :: rest => if key == name then none else typesAt? setting name rest

end

end CppType

/-! ### Decisions of the user -/

namespace CallPolicy

/-- All policies. -/
def all : List CallPolicy :=
  [default, returnOpaquePointer, copyConstReference, copyNonConstReference, returnByValue,
   manageNewObject, referenceExistingObject, returnInternalReference]

/-- The name of the policy in JSON and in manifests. -/
def tag : CallPolicy → String
  | default => "default"
  | p => p.name

/-- The policy of the given name. -/
def ofTag? : String → Option CallPolicy := findByText tag all

/-- Reads a policy. -/
def ofJson? : Decoder CallPolicy := fun j => (Json.variant? .plain j).bind ofTag?

end CallPolicy

namespace TransformerSpec

/-- The JSON form of a transformer. -/
def toJson : TransformerSpec → Json
  | ⟨.output, arg⟩ => .obj [("kind", .str "output"), ("arg", .nat arg)]
  | ⟨.input, arg⟩ => .obj [("kind", .str "input"), ("arg", .nat arg)]
  | ⟨.inout, arg⟩ => .obj [("kind", .str "inout"), ("arg", .nat arg)]
  | ⟨.inputArray size, arg⟩ =>
    .obj [("kind", .str "input_array"), ("arg", .nat arg), ("size", .nat size)]
  | ⟨.outputArray size, arg⟩ =>
    .obj [("kind", .str "output_array"), ("arg", .nat arg), ("size", .nat size)]

/-- The transformer of the given name, with its argument and, for arrays, its size. -/
def ofTag? (tag : String) (arg : Option Nat) (size : Option Nat) : Option TransformerSpec :=
  if tag == "output" then arg.map (⟨.output, ·⟩)
  else if tag == "input" then arg.map (⟨.input, ·⟩)
  else if tag == "inout" then arg.map (⟨.inout, ·⟩)
  else if tag == "input_array" then do return ⟨.inputArray (← size), ← arg⟩
  else if tag == "output_array" then do return ⟨.outputArray (← size), ← arg⟩
  else none

/-- The transformers of the given name have a size. -/
def isSized (tag : String) : Bool := tag == "input_array" || tag == "output_array"

/-- Reads a transformer. -/
def ofJson? : Decoder TransformerSpec := fun j => do
  let (tag, rest) ← Json.tagged? "kind" j
  let tag ← Json.str? tag
  if !rest.isValid then none
  let r ← Json.record? (if isSized tag then ["arg", "size"] else ["arg"]) rest
  ofTag? tag (r.required "arg" Json.word64?) (r.required "size" Json.word64?)

end TransformerSpec

namespace ExportConfig

/-- The JSON form of the user's decisions. -/
def toJson (c : ExportConfig) : Json :=
  .obj
    [("ignore", .bool c.ignore),
     ("alias", .ofOption .str c.pythonName),
     ("call_policy", .ofOption (fun p => .str p.tag) c.callPolicy),
     ("create_with_signature", .bool c.createWithSignature),
     ("always_expose_using_scope", .bool c.alwaysExposeUsingScope),
     ("use_keywords", .bool c.useKeywords),
     ("use_default_arguments", .bool c.useDefaultArguments),
     ("documentation", .ofOption .str c.documentation),
     ("transformers", .ofList TransformerSpec.toJson c.transformers),
     ("export_values", .strs c.exportValues),
     ("value_aliases", .obj (c.valueAliases.map fun a => (a.1, .str a.2))),
     ("noncopyable", .ofOption .bool c.noncopyable),
     ("code", .strs c.code),
     ("wrapper_code", .strs c.wrapperCode)]

/-- The names of the fields, in their order. -/
def fieldNames : List String :=
  ["ignore", "alias", "call_policy", "create_with_signature", "always_expose_using_scope",
   "use_keywords", "use_default_arguments", "documentation", "transformers", "export_values",
   "value_aliases", "noncopyable", "code", "wrapper_code"]

/-- Reads the user's decisions. -/
def ofJson? : Decoder ExportConfig := fun j => do
  let r ← Json.record? fieldNames j
  return {
    ignore := ← r.flag "ignore"
    pythonName := ← r.optional "alias" Json.str?
    callPolicy := ← r.optional "call_policy" CallPolicy.ofJson?
    createWithSignature := ← r.flag "create_with_signature"
    alwaysExposeUsingScope := ← r.flag "always_expose_using_scope"
    useKeywords := ← r.withDefault "use_keywords" Json.bool? true
    useDefaultArguments := ← r.withDefault "use_default_arguments" Json.bool? true
    documentation := ← r.optional "documentation" Json.str?
    transformers := ← r.list "transformers" TransformerSpec.ofJson?
    exportValues := ← r.list "export_values" Json.str?
    valueAliases := NameMap.ofList (← r.withDefault "value_aliases" Json.pairs? [])
    noncopyable := ← r.optional "noncopyable" Json.bool?
    code := ← r.list "code" Json.str?
    wrapperCode := ← r.list "wrapper_code" Json.str? }

end ExportConfig

/-! ### Functions -/

namespace Virtuality

/-- The name in JSON. -/
def tag : Virtuality → String
  | notVirtual => "not_virtual"
  | overridable => "virtual"
  | pure => "pure_virtual"

/-- Reads whether a function may be overridden. -/
def ofJson? (setting : Setting) : Decoder Virtuality := fun j =>
  (Json.variant? setting j).bind (findByText tag [notVirtual, overridable, pure])

end Virtuality

namespace CallableKind

/-- The fields of the sort of a function. -/
def toFields : CallableKind → List (String × Json)
  | freeFunction => [("callable", .str "free_function")]
  | memberFunction => [("callable", .str "member_function")]
  | constructor isCopy isExplicit =>
    [("callable", .str "constructor"), ("is_copy", .bool isCopy), ("is_explicit", .bool isExplicit)]
  | destructor => [("callable", .str "destructor")]
  | memberOperator symbol => [("callable", .str "member_operator"), ("symbol", .str symbol)]
  | freeOperator symbol => [("callable", .str "free_operator"), ("symbol", .str symbol)]
  | castingOperator => [("callable", .str "casting_operator")]

/-- The names of the sorts; a sort also goes by its place in this list. -/
def tags : List String :=
  ["free_function", "member_function", "constructor", "destructor", "member_operator",
   "free_operator", "casting_operator"]

/-- Reads the name of a sort. -/
def tagOfJson? : Decoder String
  | .str s => some s
  | .int (.ofNat n) => tags[n]?
  | _ => none

/-- Reads the sort of a function from the fields of the function. -/
def ofFields? (fields : List (String × Json)) : Option CallableKind := do
  let (tag, rest) ← Json.tagged? "callable" (.obj fields)
  let tag ← tagOfJson? tag
  if tag == "free_function" then return freeFunction
  else if tag == "member_function" then return memberFunction
  else if tag == "constructor" then
    let r ← Json.record? ["is_copy", "is_explicit"] rest
    return constructor (← r.flag "is_copy") (← r.flag "is_explicit")
  else if tag == "destructor" then return destructor
  else if tag == "member_operator" then
    let r ← Json.record? ["symbol"] rest
    return memberOperator (← r.required "symbol" Json.str?)
  else if tag == "free_operator" then
    let r ← Json.record? ["symbol"] rest
    return freeOperator (← r.required "symbol" Json.str?)
  else if tag == "casting_operator" then return castingOperator
  else none

end CallableKind

namespace Argument

/-- The JSON form of a parameter. -/
def toJson (a : Argument) : Json :=
  .obj [("name", .str a.name), ("ty", a.type.toJson), ("default_value", .ofOption .str a.default?)]

/-- Reads a parameter. -/
def ofJson? (setting : Setting) : Decoder Argument := fun j => do
  let r ← Json.record? ["name", "ty", "default_value"] j
  return {
    name := ← r.withDefault "name" Json.str? ""
    type := ← r.required "ty" (CppType.ofJson? setting)
    default? := ← r.optional "default_value" Json.str? }

end Argument

namespace Callable

/-- The fields of a function: those of its sort, then its own. -/
def toFields (c : Callable) : List (String × Json) :=
  c.kind.toFields ++
    [("return_type", .ofOption CppType.toJson c.returnType),
     ("arguments", .ofList Argument.toJson c.args),
     ("virtuality", .str c.virtuality.tag),
     ("is_static", .bool c.isStatic),
     ("is_const", .bool c.isConst)]

/-- The JSON form of a function. -/
def toJson (c : Callable) : Json := .obj c.toFields

/-- The names of the fields that all sorts of functions have. -/
def fieldNames : List String := ["return_type", "arguments", "virtuality", "is_static", "is_const"]

/-- Reads a function; it has to be written as an object. -/
def ofJson? (setting : Setting) : Decoder Callable
  | .obj fields => do
    let r ← Json.record? fieldNames (.obj fields)
    return {
      kind := ← CallableKind.ofFields? (fields.filter fun f => !fieldNames.contains f.1)
      returnType := ← r.optional "return_type" (CppType.ofJson? setting)
      args := ← r.list "arguments" (Argument.ofJson? setting)
      virtuality := ← r.withDefault "virtuality" (Virtuality.ofJson? setting) .notVirtual
      isStatic := ← r.flag "is_static"
      isConst := ← r.flag "is_const" }
  | _ => none

end Callable

/-! ### Declarations -/

namespace Access

/-- The name in JSON. -/
def tag : Access → String
  | pub => "public"
  | prot => "protected"
  | priv => "private"

/-- Reads an access. -/
def ofJson? (setting : Setting) : Decoder Access := fun j =>
  (Json.variant? setting j).bind (findByText tag [pub, prot, priv])

end Access

namespace ClassKey

/-- The name in JSON. -/
def tag : ClassKey → String
  | cls => "class"
  | struct => "struct"
  | union => "union"

/-- Reads how a class was introduced. -/
def ofJson? : Decoder ClassKey := fun j =>
  (Json.variant? .tagged j).bind (findByText tag [cls, struct, union])

end ClassKey

namespace BaseSpec

/-- The JSON form of a base class. -/
def toJson (b : BaseSpec) : Json := .obj [("class", .nat b.base), ("access", .str b.access.tag)]

/-- Reads a base class. -/
def ofJson? : Decoder BaseSpec := fun j => do
  let r ← Json.record? ["class", "access"] j
  return {
    base := ← r.required "class" Json.word32?
    access := ← r.withDefault "access" (Access.ofJson? .tagged) .pub }

end BaseSpec

namespace ClassDecl

/-- The fields of a class. -/
def toFields (c : ClassDecl) : List (String × Json) :=
  [("class_type", .str c.key.tag), ("bases", .ofList BaseSpec.toJson c.bases),
   ("members", .ofList .nat c.members), ("opaque", .bool c.isOpaque)]

/-- Reads a class. -/
def ofJson? : Decoder ClassDecl := fun j => do
  let r ← Json.record? ["class_type", "bases", "members", "opaque"] j
  return {
    key := ← r.withDefault "class_type" ClassKey.ofJson? .cls
    bases := ← r.list "bases" BaseSpec.ofJson?
    members := ← r.list "members" Json.word32?
    isOpaque := ← r.flag "opaque" }

end ClassDecl

namespace VariableDecl

/-- The fields of a variable. -/
def toFields (v : VariableDecl) : List (String × Json) :=
  [("ty", v.type.toJson), ("is_static", .bool v.isStatic), ("bits", .ofOption .nat v.bits)]

/-- Reads a variable. -/
def ofJson? : Decoder VariableDecl := fun j => do
  let r ← Json.record? ["ty", "is_static", "bits"] j
  return {
    type := ← r.required "ty" (CppType.ofJson? .tagged)
    isStatic := ← r.flag "is_static"
    bits := ← r.optional "bits" Json.word32? }

end VariableDecl

namespace Enumerator

/-- The JSON form of an enumerator: its name and its value. -/
def toJson (e : Enumerator) : Json := .arr [.str e.name, .int e.value]

/-- Reads an enumerator. -/
def ofJson? : Decoder Enumerator
  | .arr [name, value] => do return ⟨← Json.str? name, ← Json.int64? value⟩
  | _ => none

end Enumerator

namespace DeclKind

/-- The JSON form of what a declaration declares. -/
def toJson : DeclKind → Json
  | ns members => .obj [("type", .str "namespace"), ("members", .ofList .nat members)]
  | cls c => .obj (("type", .str "class") :: c.toFields)
  | callable c => .obj (("type", .str "callable") :: c.toFields)
  | .variable v => .obj (("type", .str "variable") :: v.toFields)
  | enum values => .obj [("type", .str "enum"), ("values", .ofList Enumerator.toJson values)]
  | typedef type => .obj [("type", .str "typedef"), ("ty", type.toJson)]

/-- Reads what a declaration declares.  Its tag may stand at any place, so everything has to be read
before it is known what it means, and no part may be invalid. -/
def ofJson? : Decoder DeclKind := fun j => do
  let (tag, rest) ← Json.tagged? "type" j
  let tag ← Json.str? tag
  if !rest.isValid then none
  else if tag == "namespace" then
    let r ← Json.record? ["members"] rest
    return ns (← r.list "members" Json.word32?)
  else if tag == "class" then return cls (← ClassDecl.ofJson? rest)
  else if tag == "callable" then return callable (← Callable.ofJson? .tagged rest)
  else if tag == "variable" then return .variable (← VariableDecl.ofJson? rest)
  else if tag == "enum" then
    let r ← Json.record? ["values"] rest
    return enum (← r.list "values" Enumerator.ofJson?)
  else if tag == "typedef" then
    let r ← Json.record? ["ty"] rest
    return typedef (← r.required "ty" (CppType.ofJson? .tagged))
  else none

end DeclKind

namespace Location

/-- The JSON form of a place in the sources. -/
def toJson (l : Location) : Json := .obj [("file", .str l.file), ("line", .nat l.line)]

/-- Reads a place in the sources. -/
def ofJson? : Decoder Location := fun j => do
  let r ← Json.record? ["file", "line"] j
  return { file := ← r.required "file" Json.str?, line := ← r.required "line" Json.word32? }

end Location

namespace Declaration

/-- The JSON form of a declaration. -/
def toJson (d : Declaration) : Json :=
  .obj
    [("name", .str d.name),
     ("kind", d.kind.toJson),
     ("access", .str d.access.tag),
     ("parent", .ofOption .nat d.parent),
     ("location", d.location.toJson),
     ("is_artificial", .bool d.isArtificial),
     ("config", d.config.toJson)]

/-- The names of the fields, in their order. -/
def fieldNames : List String :=
  ["name", "kind", "access", "parent", "location", "is_artificial", "config"]

/-- Reads a declaration. -/
def ofJson? : Decoder Declaration := fun j => do
  let r ← Json.record? fieldNames j
  return {
    name := ← r.required "name" Json.str?
    kind := ← r.required "kind" DeclKind.ofJson?
    access := ← r.withDefault "access" (Access.ofJson? .plain) .pub
    parent := ← r.optional "parent" Json.word32?
    location := ← r.withDefault "location" Location.ofJson? {}
    isArtificial := ← r.flag "is_artificial"
    config := ← r.withDefault "config" ExportConfig.ofJson? {} }

end Declaration

/-! ### Graphs -/

/-- Why a text is no declaration graph. -/
inductive GraphTextError
  /-- The text is not the JSON form of a graph. -/
  | notAGraph
  /-- The graph is not well formed. -/
  | invalid (e : GraphError)
  deriving DecidableEq, Repr

namespace DeclGraph

/-- The JSON form of a graph. -/
def toJson (g : DeclGraph) : Json :=
  .obj [("declarations", .ofList Declaration.toJson g.decls.toList)]

/-- Reads a graph, without checking it. -/
def ofJson? : Decoder DeclGraph := fun j => do
  let r ← Json.record? ["declarations"] j
  return ⟨(← r.required "declarations" (Json.listOf? Declaration.ofJson?)).toArray⟩

/-- How deep the JSON text of a graph may be nested. -/
def nestingLimit : Nat := 127

/-- The text of a graph. -/
def toText (g : DeclGraph) : String := g.toJson.pretty

/-- Reads and checks a graph. -/
def ofText (text : String) : Except GraphTextError DeclGraph :=
  match (Json.read? nestingLimit text).bind ofJson? with
  | none => .error .notAGraph
  | some g =>
    match g.validate with
    | .ok () => .ok g
    | .error e => .error (.invalid e)

end DeclGraph

end Bindery
