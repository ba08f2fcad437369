import Bindery.Code.Expression
import Bindery.Text.Template

/-!
# Registrations

The statements that make functions, enumerations, variables and operators known to Python.

## Main definitions

* `MakerNode.text`, `ConstructorNode.text`, `OperatorNode.text`, … — the text of each node.
-/

namespace Bindery

open Text (scalar block)

/-! ### Functions -/

/-- The address of a function, cast to a type if one is given. -/
def functionReference (function : String) (signature : Option String) : String :=
  match signature with
  | some type => "(" ++ type ++ ")( &" ++ function ++ " )"
  | none => "&" ++ function

namespace MakerNode

/-- The functions that are registered under the name. -/
def references (m : MakerNode) (lib : LibraryName) : List String :=
  let reference := functionReference m.function m.signature
  match m.style with
  | .pureVirtual => [lib "pure_virtual" ++ "( " ++ reference ++ " )"]
  | .overridable function signature => [reference, functionReference function signature]
  | .free | .member => [reference]

/-- The arguments of the registration. -/
def params (m : MakerNode) (lib : LibraryName) : List String :=
  [quoted m.pythonName] ++ m.references lib ++ (Keyword.list? lib m.keywords).toList ++
    (m.callPolicy.expression? lib).toList ++ (m.documentation.map quoted).toList

/-- The call that registers the function. -/
def statement (m : MakerNode) (lib : LibraryName) : String :=
  Text.Vars.fill
    [scalar "DEF" (if m.style = .free then lib "def" else "def"),
     scalar "PARAMS" ("\n    , ".intercalate (m.params lib))]
    "$DEF(\n    $PARAMS )"

/-- The registration of a function; a free function has a block of its own. -/
def text (m : MakerNode) (lib : LibraryName) : String :=
  if m.style = .free then
    Text.Vars.fill
      [scalar "FULL_NAME" m.fullName, block "STATEMENT" (m.statement lib ++ ";")]
      "\x7b //$FULL_NAME\n\n    $STATEMENT\n\x7d"
  else m.statement lib

end MakerNode

namespace ConstructorNode

/-- The parameter types that a caller has to give, and those that may be left out. -/
def splitTypes (c : ConstructorNode) : List String × List String :=
  match c.optionalFrom with
  | some n => c.argTypes.splitAt n
  | none => (c.argTypes, [])

/-- The type that stands for the parameters. -/
def initType (c : ConstructorNode) (lib : LibraryName) : String :=
  let (required, optional) := c.splitTypes
  let types := required ++
    if optional.isEmpty then [] else [lib "optional" ++ "< " ++ ", ".intercalate optional ++ " >"]
  lib "init" ++ if types.isEmpty then "< >" else "< " ++ ", ".intercalate types ++ " >"

/-- The registration of a constructor. -/
def text (c : ConstructorNode) (lib : LibraryName) : String :=
  let args := (Keyword.list? lib c.keywords).toList ++ (c.documentation.map quoted).toList
  let policy := match c.callPolicy.expression? lib with
    | some p => "[" ++ p ++ "]"
    | none => ""
  Text.Vars.fill
    [scalar "INIT" (c.initType lib), scalar "INIT_ARGS" (", ".intercalate args),
     scalar "POLICY" policy]
    "def( $INIT($INIT_ARGS)$POLICY )"

end ConstructorNode

/-- The declaration that the functions of a name are static. -/
def staticMethodText (pythonName : String) : String :=
  Text.Vars.fill [scalar "ALIAS" pythonName] "staticmethod( \"$ALIAS\" )"

/-! ### Operators and conversions -/

/-- An operand. -/
def Operand.text (lib : LibraryName) : Operand → String
  | self => lib "self"
  | other type => lib "other" ++ "< " ++ type ++ " >()"

/-- The registration of an operator. -/
def OperatorNode.text (o : OperatorNode) (lib : LibraryName) : String :=
  let expression := match o.right with
    | some right => o.left.text lib ++ " " ++ o.symbol ++ " " ++ right.text lib
    | none => o.symbol ++ o.left.text lib
  Text.Vars.fill [scalar "EXPRESSION" expression] "def( $EXPRESSION )"

/-- The registration of a conversion that needs no call. -/
def implicitConversionText (source target : String) (lib : LibraryName) : String :=
  Text.Vars.fill
    [scalar "IMPLICITLY_CONVERTIBLE" (lib "implicitly_convertible"), scalar "FROM" source,
     scalar "TO" target]
    "$IMPLICITLY_CONVERTIBLE< $FROM, $TO >();"

/-- The registration of a conversion operator as a method. -/
def CastNode.text (c : CastNode) (lib : LibraryName) : String :=
  let params := [quoted c.pythonName, "&" ++ c.function] ++ (c.callPolicy.expression? lib).toList
  Text.Vars.fill [scalar "PARAMS" (", ".intercalate params)] "def( $PARAMS )"

/-! ### Enumerations -/

/-- The statement that makes an enumerator visible around its enumeration. -/
def EnumNode.exportStatement (e : EnumNode) (lib : LibraryName) (name : String) : String :=
  let scope := lib "scope"
  scope ++ "().attr( \"" ++ name ++ "\" ) = " ++ scope ++ "().attr( \"" ++ e.pythonName ++
    "\" ).attr( \"" ++ name ++ "\" );"

/-- The registration of an enumeration. -/
def EnumNode.text (e : EnumNode) (lib : LibraryName) : String :=
  let values := e.values.map fun v => ".value(\"" ++ v.pythonName ++ "\", " ++ v.fullName ++ ")"
  let (calls, exports) := match e.exported with
    | none => (values ++ [".export_values()"], [])
    | some names => (values, names.map (e.exportStatement lib))
  Text.Vars.fill
    [scalar "ENUM" (lib "enum_"), scalar "FULL_NAME" e.fullName, scalar "ALIAS" e.pythonName,
     block "VALUES" ("\n".intercalate calls), block "EXPORTS" ("\n".intercalate exports)]
    "$ENUM< $FULL_NAME >( \"$ALIAS\" )\n    $VALUES\n    ;\n$EXPORTS"

/-- The enumerators of an enumeration without a name become attributes. -/
def unnamedEnumText (values : List EnumValue) (lib : LibraryName) : String :=
  "\n".intercalate <| values.map fun v =>
    Text.Vars.fill
      [scalar "SCOPE" (lib "scope"), scalar "ALIAS" v.pythonName, scalar "VALUE" v.fullName]
      "$SCOPE().attr( \"$ALIAS\" ) = (int)$VALUE;"

/-! ### Variables and containers -/

/-- A variable outside classes becomes an attribute. -/
def globalVariableText (pythonName fullName : String) (lib : LibraryName) : String :=
  Text.Vars.fill
    [scalar "SCOPE" (lib "scope"), scalar "ALIAS" pythonName, scalar "FULL_NAME" fullName]
    "$SCOPE().attr( \"$ALIAS\" ) = $FULL_NAME;"

/-- The registration of a member variable. -/
def MemberVariableNode.text (v : MemberVariableNode) : String :=
  let params := [quoted v.pythonName, "&" ++ v.fullName] ++ (v.documentation.map quoted).toList
  Text.Vars.fill
    [scalar "DEF" (if v.readonly then "def_readonly" else "def_readwrite"),
     scalar "PARAMS" (", ".intercalate params)]
    "$DEF( $PARAMS )"

/-- The registration of a member variable through accessors. -/
def PropertyNode.text (p : PropertyNode) (lib : LibraryName) : String :=
  let getter := match p.getterPolicy.expression? lib with
    | some policy => lib "make_function" ++ "( &" ++ p.getter ++ ", " ++ policy ++ " )"
    | none => "&" ++ p.getter
  let params := [quoted p.pythonName, getter] ++ (p.setter.map ("&" ++ ·)).toList
  Text.Vars.fill
    [scalar "ADD" (if p.isStatic then "add_static_property" else "add_property"),
     scalar "PARAMS" (", ".intercalate params)]
    "$ADD( $PARAMS )"

/-- The registration of a container. -/
def IndexingSuiteNode.text (s : IndexingSuiteNode) (lib : LibraryName) : String :=
  let suite := match s.version, s.kind with
    | 1, .vector => "vector_indexing_suite"
    | 1, .map => "map_indexing_suite"
    | _, .vector => "indexing::vector_suite"
    | _, .map => "indexing::map_suite"
  Text.Vars.fill [scalar "SUITE" (lib suite), scalar "CONTAINER" s.container]
    "def( $SUITE< $CONTAINER >() )"

end Bindery
