import Bindery.Code.Expression
import Bindery.Text.Template

/-!
# Members of wrapper classes

A wrapper class derives from a class and from the binding library's wrapper.  Its members forward
constructors, look up Python overrides of virtual functions, and make protected functions
accessible.

## Main definitions

* `ShimNode.text` — a function that forwards to Python or to the class.
* `TransformedNode.text` — a function with transformed arguments.
* `ConstructorWrapperNode.text`, `AccessorNode.text` — constructors and variable accessors.
-/

namespace Bindery

open Text (scalar block)

/-! ### Forwarding functions -/

namespace ShimNode

/-- The statement that calls the Python override. -/
def overrideCall (s : ShimNode) (lib : LibraryName) : String :=
  (if s.returnsVoid then "" else "return ") ++ "func_" ++ s.pythonName ++ "( " ++
    ShimArg.namesForOverride lib s.args ++ " );"

/-- The statement that calls the function of the class. -/
def baseCall (s : ShimNode) : String :=
  (if s.returnsVoid then "" else "return ") ++
    (if s.kind = .protStatic then "" else "this->") ++
    s.classFullName ++ "::" ++ s.name ++ "( " ++ ShimArg.names s.args ++ " );"

/-- The variables of the templates. -/
def vars (s : ShimNode) (lib : LibraryName) : Text.Vars :=
  [scalar "RETURN_TYPE" s.returnType,
   scalar "NAME" s.name,
   scalar "ALIAS" s.pythonName,
   scalar "ARGS" (ShimArg.declarations s.args),
   scalar "CONST" (if s.isConst && s.kind ≠ .protStatic then " const" else ""),
   scalar "OVERRIDE" (lib "override"),
   scalar "DEFAULT_NAME" s.defaultName,
   scalar "FULL_NAME" (s.classFullName ++ "::" ++ s.name),
   scalar "STATIC" (if s.kind = .protStatic then "static " else ""),
   block "OVERRIDE_BOUND" (s.overrideCall lib),
   block "NO_OVERRIDE" s.baseCall]

/-- A choice between the override and the class, and the default implementation. -/
def dispatchTemplate : String :=
  Text.unlines
    ["virtual $RETURN_TYPE $NAME( $ARGS )$CONST \x7b",
     "    if( $OVERRIDE func_$ALIAS = this->get_override( \"$ALIAS\" ) )",
     "        $OVERRIDE_BOUND",
     "    else\x7b",
     "        $NO_OVERRIDE",
     "    \x7d",
     "\x7d",
     "",
     "$RETURN_TYPE $DEFAULT_NAME( $ARGS )$CONST \x7b",
     "    $NO_OVERRIDE",
     "\x7d"]

/-- The class and the default implementation; a reference cannot come from Python. -/
def baseOnlyTemplate : String :=
  Text.unlines
    ["virtual $RETURN_TYPE $NAME( $ARGS )$CONST \x7b",
     "    $NO_OVERRIDE",
     "\x7d",
     "",
     "$RETURN_TYPE $DEFAULT_NAME( $ARGS )$CONST \x7b",
     "    $NO_OVERRIDE",
     "\x7d"]

/-- The override. -/
def pureVirtualTemplate : String :=
  Text.unlines
    ["virtual $RETURN_TYPE $NAME( $ARGS )$CONST\x7b",
     "    $OVERRIDE func_$ALIAS = this->get_override( \"$ALIAS\" );",
     "    $OVERRIDE_BOUND",
     "\x7d"]

/-- A failure; a reference cannot come from Python. -/
def unoverridableTemplate : String :=
  Text.unlines
    ["virtual $RETURN_TYPE $NAME( $ARGS )$CONST\x7b",
     "    throw std::logic_error( \"$FULL_NAME returns a reference " ++
       "and cannot be overridden from Python\" );",
     "\x7d"]

/-- The class. -/
def accessTemplate : String :=
  Text.unlines
    ["$STATIC$RETURN_TYPE $NAME( $ARGS )$CONST\x7b",
     "    $NO_OVERRIDE",
     "\x7d"]

/-- The template of a sort of function. -/
def template (s : ShimNode) : String :=
  match s.kind with
  | .overridable | .protOverridable =>
    if s.returnsReference then baseOnlyTemplate else dispatchTemplate
  | .pureVirtual | .protPureVirtual | .privPureVirtual =>
    if s.returnsReference then unoverridableTemplate else pureVirtualTemplate
  | .prot | .protStatic => accessTemplate

/-- A function that forwards to Python or to the class. -/
def text (s : ShimNode) (lib : LibraryName) : String := (s.vars lib).fill s.template

end ShimNode

/-! ### Transformed functions -/

namespace TransformedNode

/-- The variables that both templates have. -/
def vars (t : TransformedNode) : Text.Vars :=
  [scalar "RETURN_TYPE" t.code.returnType,
   scalar "NAME" t.name,
   scalar "ALIAS" t.pythonName,
   scalar "ARG_LIST" t.code.argList,
   block "DECLARATIONS" t.code.declarations,
   block "PRE_CALL" t.code.preCall,
   block "POST_CALL" t.code.postCall,
   scalar "RESULT_ASSIGNMENT" t.code.resultAssignment,
   block "RETURN_STMT" t.code.returnStmt]

/-- A function that Python calls. -/
def functionTemplate : String :=
  Text.unlines
    ["static $RETURN_TYPE $NAME( $ARG_LIST )\x7b",
     "    $DECLARATIONS",
     "    $PRE_CALL",
     "    $\x7bRESULT_ASSIGNMENT\x7d$CALL_TARGET( $INPUT_PARAMS );",
     "    $POST_CALL",
     "    $RETURN_STMT",
     "\x7d"]

/-- A virtual function that calls Python, or else the base class. -/
def overrideTemplate : String :=
  Text.unlines
    ["virtual $RETURN_TYPE $NAME( $ARG_LIST )$CONST\x7b",
     "    $OVERRIDE func_$ALIAS = this->get_override( \"$ALIAS\" );",
     "    if( func_$ALIAS )\x7b",
     "        $DECLARATIONS",
     "        $PRE_CALL",
     "        $\x7bRESULT_ASSIGNMENT\x7d$CALL< $RESULT_TYPE >( $INPUT_PARAMS );",
     "        $POST_CALL",
     "        $RETURN_STMT",
     "    \x7d",
     "    else\x7b",
     "        $\x7bRETURN\x7d$CLASS::$NAME( $BASE_ARGS );",
     "    \x7d",
     "\x7d"]

/-- The arguments of the call of Python: the override, then what is passed to it. -/
def overrideInput (t : TransformedNode) : String :=
  "func_" ++ t.pythonName ++ ".ptr()" ++
    if t.code.inputParams.isEmpty then "" else ", " ++ t.code.inputParams

/-- A function generated by transformers. -/
def text (t : TransformedNode) (lib : LibraryName) : String :=
  match t.kind with
  | .function target =>
    Text.Vars.fill
      (t.vars ++ [scalar "CALL_TARGET" target, scalar "INPUT_PARAMS" t.code.inputParams])
      functionTemplate
  | .override classFullName baseArgs isConst returnsVoid =>
    Text.Vars.fill
      (t.vars ++
        [scalar "INPUT_PARAMS" t.overrideInput,
         scalar "CONST" (if isConst then " const" else ""),
         scalar "OVERRIDE" (lib "override"),
         scalar "CALL" (lib "call"),
         scalar "RESULT_TYPE" t.code.resultType,
         scalar "RETURN" (if returnsVoid then "" else "return "),
         scalar "CLASS" classFullName,
         scalar "BASE_ARGS" baseArgs])
      overrideTemplate

end TransformedNode

/-! ### Constructors and accessors -/

/-- A constructor that forwards its parameters. -/
def ConstructorWrapperNode.text (c : ConstructorWrapperNode) (lib : LibraryName) : String :=
  Text.Vars.fill
    [scalar "WRAPPER_ALIAS" c.wrapperAlias, scalar "CLASS" c.classFullName,
     scalar "WRAPPER" (lib "wrapper"), scalar "ARGS" (ShimArg.declarations c.args),
     scalar "PARAMS" (ShimArg.names c.args)]
    (Text.unlines
      ["$WRAPPER_ALIAS( $ARGS )",
       ": $CLASS( $PARAMS )",
       "  , $WRAPPER< $CLASS >()\x7b",
       "    // Normal constructor",
       "\x7d"])

/-- The variables of the constructors without parameters of their own. -/
def SpecialConstructorNode.vars (c : SpecialConstructorNode) (lib : LibraryName) : Text.Vars :=
  [scalar "WRAPPER_ALIAS" c.wrapperAlias, scalar "CLASS" c.classFullName,
   scalar "WRAPPER" (lib "wrapper")]

/-- A constructor without parameters. -/
def SpecialConstructorNode.nullText (c : SpecialConstructorNode) (lib : LibraryName) : String :=
  (c.vars lib).fill
    (Text.unlines
      ["$WRAPPER_ALIAS()",
       ": $CLASS()",
       "  , $WRAPPER< $CLASS >()\x7b",
       "    // null constructor",
       "\x7d"])

/-- A constructor that copies an object of the class. -/
def SpecialConstructorNode.copyText (c : SpecialConstructorNode) (lib : LibraryName) : String :=
  (c.vars lib).fill
    (Text.unlines
      ["$WRAPPER_ALIAS( $CLASS const & arg )",
       ": $CLASS( arg )",
       "  , $WRAPPER< $CLASS >()\x7b",
       "    // copy constructor",
       "\x7d"])

namespace AccessorNode

/-- The function that reads the variable. -/
def getterTemplate (a : AccessorNode) : String :=
  if a.isStatic then "static $TYPE get_$MEMBER()\x7b\n    return $CLASS::$MEMBER;\n\x7d"
  else "static $TYPE get_$MEMBER( $CLASS const & inst )\x7b\n    return inst.$MEMBER;\n\x7d"

/-- The function that writes the variable. -/
def setterTemplate (a : AccessorNode) : String :=
  if a.isStatic then
    "static void set_$MEMBER( $TYPE new_value )\x7b\n    $CLASS::$MEMBER = new_value;\n\x7d"
  else
    (Text.unlines
      ["static void set_$MEMBER( $CLASS & inst, $TYPE new_value )\x7b",
       "    inst.$MEMBER = new_value;",
       "\x7d"])

/-- The accessors of a variable. -/
def text (a : AccessorNode) : String :=
  let vars : Text.Vars :=
    [scalar "TYPE" a.type, scalar "MEMBER" a.member, scalar "CLASS" a.classFullName]
  vars.fill a.getterTemplate ++
    if a.readonly then "" else "\n\n" ++ vars.fill a.setterTemplate

end AccessorNode

end Bindery
