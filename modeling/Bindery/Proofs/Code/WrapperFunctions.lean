import Bindery.Code.Render
import Bindery.Proofs.Text.ContentLines

/-!
# The functions that members of a wrapper class define

A stand-in, a transformed function and the accessors of a variable are written from templates, one
for each way in which a function comes within reach of Python.  What is not blank of such a text are
definitions of member functions, one behind the other, and which functions they are follows from
what the node says.

## Main definitions

* `MemberFunction` — the definition of a member function; `MemberFunction.lines` is its content.
* `NodeKind.members` — the functions that a node defines in its wrapper class.

## Main results

* `contentLines_text_of_definesFunctions` — **the text of such a node consists of the definitions of
  its functions.**
-/

namespace Bindery

open Text (scalar block contentLines)

/-- The definition of a member function. -/
structure MemberFunction where
  /-- A specifier with the blank behind it, if there is one. -/
  specifier : String := ""
  type : String
  name : String
  /-- What stands between the parentheses. -/
  params : String
  /-- What stands between the parentheses and the body. -/
  qualifier : String := ""
  /-- What stands between the braces, one text below the other. -/
  body : List String
  deriving DecidableEq, Repr

namespace MemberFunction

/-- What the definition begins with. -/
def head (f : MemberFunction) : String :=
  f.specifier ++ f.type ++ " " ++ f.name ++ "(" ++ f.params ++ ")" ++ f.qualifier ++ "\x7b"

/-- The definition, one text below the other. -/
def texts (f : MemberFunction) : List String := f.head :: f.body ++ ["\x7d"]

/-- The lines of the definition that are not blank. -/
def lines (f : MemberFunction) : List (List Char) := f.texts.flatMap (contentLines ·.toList)

/-- Two definitions with a blank line between them. -/
theorem lines_append_lines (f f' : MemberFunction) : f.lines ++ f'.lines =
    (f.texts ++ "" :: f'.texts).flatMap (contentLines ·.toList) := by
  have hblank : contentLines "".toList = [] := rfl
  rw [List.flatMap_append, List.flatMap_cons, hblank, List.nil_append, lines, lines]

end MemberFunction

/-! ### Stand-ins -/

namespace ShimNode

/-- The specifier of a stand-in that is not virtual. -/
def staticness (s : ShimNode) : String := if s.kind = .protStatic then "static " else ""

/-- What stands behind the parameters. -/
def constness (s : ShimNode) : String :=
  if s.isConst && s.kind ≠ .protStatic then " const" else ""

/-- A function with the type and the parameters of the one that is stood in for. -/
def member (s : ShimNode) (specifier name qualifier : String) (body : List String) :
    MemberFunction where
  specifier
  type := s.returnType
  name
  params := " " ++ ShimArg.declarations s.args ++ " "
  qualifier
  body

/-- A choice between a Python override and the class. -/
def choice (s : ShimNode) (lib : LibraryName) : List String :=
  ["if( " ++ lib "override" ++ " func_" ++ s.pythonName ++ " = this->get_override( \"" ++
      s.pythonName ++ "\" ) )",
    s.overrideCall lib, "else\x7b", s.baseCall, "\x7d"]

/-- The functions that a stand-in defines.  One that may be overridden comes with its default
implementation. -/
def members (s : ShimNode) (lib : LibraryName) : List MemberFunction :=
  match s.kind with
  | .overridable | .protOverridable =>
    [s.member "virtual " s.name (s.constness ++ " ")
      (if s.returnsReference then [s.baseCall] else s.choice lib),
     s.member "" s.defaultName (s.constness ++ " ") [s.baseCall]]
  | .pureVirtual | .protPureVirtual | .privPureVirtual =>
    [s.member "virtual " s.name s.constness
      (if s.returnsReference then
        ["throw std::logic_error( \"" ++ (s.classFullName ++ "::" ++ s.name) ++
          " returns a reference and cannot be overridden from Python\" );"]
      else
        [lib "override" ++ " func_" ++ s.pythonName ++ " = this->get_override( \"" ++
            s.pythonName ++ "\" );",
          s.overrideCall lib])]
  | .prot | .protStatic =>
    [s.member s.staticness s.name s.constness [s.baseCall]]

variable (s : ShimNode) (lib : LibraryName)

theorem spells_noOverride {line : String} (hline : '\n' ∉ line.toList)
    (hsole : Text.soleReference? (Text.trim line.toList) = some "NO_OVERRIDE".toList) :
    Text.Spells (s.vars lib) line s.baseCall := Text.spells_block "NO_OVERRIDE" hline hsole rfl

theorem spells_overrideBound {line : String} (hline : '\n' ∉ line.toList)
    (hsole : Text.soleReference? (Text.trim line.toList) = some "OVERRIDE_BOUND".toList) :
    Text.Spells (s.vars lib) line (s.overrideCall lib) :=
  Text.spells_block "OVERRIDE_BOUND" hline hsole rfl

theorem spells_defaultHead (body : List String) : Text.Spells (s.vars lib)
    "$RETURN_TYPE $DEFAULT_NAME( $ARGS )$CONST \x7b"
    (s.member "" s.defaultName (s.constness ++ " ") body).head := by
  refine Text.spells_of_expandLine 0 ?_
  simp only [MemberFunction.head, member, String.toList_append, List.append_assoc]
  rfl

theorem spells_dispatchHead (body : List String) : Text.Spells (s.vars lib)
    "virtual $RETURN_TYPE $NAME( $ARGS )$CONST \x7b"
    (s.member "virtual " s.name (s.constness ++ " ") body).head := by
  refine Text.spells_of_expandLine 0 ?_
  simp only [MemberFunction.head, member, String.toList_append, List.append_assoc]
  rfl

theorem spells_virtualHead (body : List String) : Text.Spells (s.vars lib)
    "virtual $RETURN_TYPE $NAME( $ARGS )$CONST\x7b"
    (s.member "virtual " s.name s.constness body).head := by
  refine Text.spells_of_expandLine 0 ?_
  simp only [MemberFunction.head, member, String.toList_append, List.append_assoc]
  rfl

theorem contentLines_dispatch :
    contentLines ((s.vars lib).fill dispatchTemplate).toList =
      (s.member "virtual " s.name (s.constness ++ " ") (s.choice lib)).lines ++
        (s.member "" s.defaultName (s.constness ++ " ") [s.baseCall]).lines := by
  have hif : Text.Spells (s.vars lib)
      "    if( $OVERRIDE func_$ALIAS = this->get_override( \"$ALIAS\" ) )"
      ("if( " ++ lib "override" ++ " func_" ++ s.pythonName ++ " = this->get_override( \"" ++
        s.pythonName ++ "\" ) )") := by
    refine Text.spells_of_expandLine 1 ?_
    simp only [String.toList_append, List.append_assoc]
    rfl
  rw [MemberFunction.lines_append_lines]
  refine Text.contentLines_fill (List.cons_ne_nil _ _) (by decide) ?_
  exact .cons (s.spells_dispatchHead lib _) <| .cons hif <|
    .cons (s.spells_overrideBound lib (by decide) rfl) <| .cons rfl <|
    .cons (s.spells_noOverride lib (by decide) rfl) <| .cons rfl <| .cons rfl <| .cons rfl <|
    .cons (s.spells_defaultHead lib _) <|
    .cons (s.spells_noOverride lib (by decide) rfl) <| .cons rfl .nil

theorem contentLines_baseOnly :
    contentLines ((s.vars lib).fill baseOnlyTemplate).toList =
      (s.member "virtual " s.name (s.constness ++ " ") [s.baseCall]).lines ++
        (s.member "" s.defaultName (s.constness ++ " ") [s.baseCall]).lines := by
  rw [MemberFunction.lines_append_lines]
  refine Text.contentLines_fill (List.cons_ne_nil _ _) (by decide) ?_
  exact .cons (s.spells_dispatchHead lib _) <|
    .cons (s.spells_noOverride lib (by decide) rfl) <| .cons rfl <| .cons rfl <|
    .cons (s.spells_defaultHead lib _) <|
    .cons (s.spells_noOverride lib (by decide) rfl) <| .cons rfl .nil

theorem contentLines_pureVirtual :
    contentLines ((s.vars lib).fill pureVirtualTemplate).toList =
      (s.member "virtual " s.name s.constness
        [lib "override" ++ " func_" ++ s.pythonName ++ " = this->get_override( \"" ++
            s.pythonName ++ "\" );",
          s.overrideCall lib]).lines := by
  have hlookup : Text.Spells (s.vars lib)
      "    $OVERRIDE func_$ALIAS = this->get_override( \"$ALIAS\" );"
      (lib "override" ++ " func_" ++ s.pythonName ++ " = this->get_override( \"" ++
        s.pythonName ++ "\" );") := by
    refine Text.spells_of_expandLine 1 ?_
    simp only [String.toList_append, List.append_assoc]
    rfl
  refine Text.contentLines_fill (List.cons_ne_nil _ _) (by decide) ?_
  exact .cons (s.spells_virtualHead lib _) <| .cons hlookup <|
    .cons (s.spells_overrideBound lib (by decide) rfl) <| .cons rfl .nil

set_option maxRecDepth 1024 in
theorem contentLines_unoverridable :
    contentLines ((s.vars lib).fill unoverridableTemplate).toList =
      (s.member "virtual " s.name s.constness
        ["throw std::logic_error( \"" ++ (s.classFullName ++ "::" ++ s.name) ++
          " returns a reference and cannot be overridden from Python\" );"]).lines := by
  have hthrow : Text.Spells (s.vars lib)
      ("    throw std::logic_error( \"$FULL_NAME returns a reference " ++
        "and cannot be overridden from Python\" );")
      ("throw std::logic_error( \"" ++ (s.classFullName ++ "::" ++ s.name) ++
        " returns a reference and cannot be overridden from Python\" );") := by
    refine Text.spells_of_expandLine 1 ?_
    conv_rhs => rw [String.toList_append, String.toList_append, List.append_assoc]
    rfl
  refine Text.contentLines_fill (List.cons_ne_nil _ _) (by decide) ?_
  exact .cons (s.spells_virtualHead lib _) <| .cons hthrow <| .cons rfl .nil

theorem contentLines_access :
    contentLines ((s.vars lib).fill accessTemplate).toList =
      (s.member s.staticness s.name s.constness [s.baseCall]).lines := by
  have hhead : Text.Spells (s.vars lib) "$STATIC$RETURN_TYPE $NAME( $ARGS )$CONST\x7b"
      (s.member s.staticness s.name s.constness [s.baseCall]).head := by
    refine Text.spells_of_expandLine 0 ?_
    simp only [MemberFunction.head, member, String.toList_append, List.append_assoc]
    rfl
  refine Text.contentLines_fill (List.cons_ne_nil _ _) (by decide) ?_
  exact .cons hhead <| .cons (s.spells_noOverride lib (by decide) rfl) <| .cons rfl .nil

/-- The text of a stand-in consists of the definitions of its functions. -/
theorem contentLines_text :
    contentLines (s.text lib).toList = (s.members lib).flatMap (·.lines) := by
  unfold text template members
  cases s.kind with
  | overridable | protOverridable =>
    by_cases href : s.returnsReference
    · simp only [if_pos href, List.flatMap_cons, List.flatMap_nil, List.append_nil]
      exact s.contentLines_baseOnly lib
    · simp only [if_neg href, List.flatMap_cons, List.flatMap_nil, List.append_nil]
      exact s.contentLines_dispatch lib
  | pureVirtual | protPureVirtual | privPureVirtual =>
    by_cases href : s.returnsReference
    · simp only [if_pos href, List.flatMap_singleton]
      exact s.contentLines_unoverridable lib
    · simp only [if_neg href, List.flatMap_singleton]
      exact s.contentLines_pureVirtual lib
  | prot | protStatic =>
    rw [List.flatMap_singleton]
    exact s.contentLines_access lib

end ShimNode

/-! ### Transformed functions -/

namespace TransformedNode

/-- The function that a transformed one defines. -/
def member (t : TransformedNode) (lib : LibraryName) : MemberFunction :=
  match t.kind with
  | .function target => {
      specifier := "static "
      type := t.code.returnType
      name := t.name
      params := " " ++ t.code.argList ++ " "
      body :=
        [t.code.declarations, t.code.preCall,
          t.code.resultAssignment ++ target ++ "( " ++ t.code.inputParams ++ " );",
          t.code.postCall, t.code.returnStmt] }
  | .override classFullName baseArgs isConst returnsVoid => {
      specifier := "virtual "
      type := t.code.returnType
      name := t.name
      params := " " ++ t.code.argList ++ " "
      qualifier := if isConst then " const" else ""
      body :=
        [lib "override" ++ " func_" ++ t.pythonName ++ " = this->get_override( \"" ++
            t.pythonName ++ "\" );",
          "if( func_" ++ t.pythonName ++ " )\x7b", t.code.declarations, t.code.preCall,
          t.code.resultAssignment ++ lib "call" ++ "< " ++ t.code.resultType ++ " >( " ++
            t.overrideInput ++ " );",
          t.code.postCall, t.code.returnStmt, "\x7d", "else\x7b",
          (if returnsVoid then "" else "return ") ++ classFullName ++ "::" ++ t.name ++ "( " ++
            baseArgs ++ " );",
          "\x7d"] }

theorem contentLines_function (t : TransformedNode) (target : String) (lib : LibraryName)
    (hkind : t.kind = .function target) :
    contentLines (t.text lib).toList = (t.member lib).lines := by
  have hhead : Text.Spells
      (t.vars ++ [scalar "CALL_TARGET" target, scalar "INPUT_PARAMS" t.code.inputParams])
      "static $RETURN_TYPE $NAME( $ARG_LIST )\x7b"
      ("static " ++ t.code.returnType ++ " " ++ t.name ++ "(" ++ (" " ++ t.code.argList ++ " ") ++
        ")" ++ "" ++ "\x7b") := by
    refine Text.spells_of_expandLine 0 ?_
    simp only [String.toList_append, List.append_assoc]
    rfl
  have hcall : Text.Spells
      (t.vars ++ [scalar "CALL_TARGET" target, scalar "INPUT_PARAMS" t.code.inputParams])
      "    $\x7bRESULT_ASSIGNMENT\x7d$CALL_TARGET( $INPUT_PARAMS );"
      (t.code.resultAssignment ++ target ++ "( " ++ t.code.inputParams ++ " );") := by
    refine Text.spells_of_expandLine 1 ?_
    simp only [String.toList_append, List.append_assoc]
    rfl
  unfold text member
  rw [hkind]
  refine Text.contentLines_fill (List.cons_ne_nil _ _) (by decide) ?_
  exact .cons hhead <| .cons (Text.spells_block "DECLARATIONS" (by decide) rfl rfl) <|
    .cons (Text.spells_block "PRE_CALL" (by decide) rfl rfl) <| .cons hcall <|
    .cons (Text.spells_block "POST_CALL" (by decide) rfl rfl) <|
    .cons (Text.spells_block "RETURN_STMT" (by decide) rfl rfl) <| .cons rfl .nil

/-- The variables of the template of an override. -/
def overrideVars (t : TransformedNode) (classFullName baseArgs : String)
    (isConst returnsVoid : Bool) (lib : LibraryName) : Text.Vars :=
  t.vars ++
    [scalar "INPUT_PARAMS" t.overrideInput,
     scalar "CONST" (if isConst then " const" else ""),
     scalar "OVERRIDE" (lib "override"),
     scalar "CALL" (lib "call"),
     scalar "RESULT_TYPE" t.code.resultType,
     scalar "RETURN" (if returnsVoid then "" else "return "),
     scalar "CLASS" classFullName,
     scalar "BASE_ARGS" baseArgs]

section

variable (t : TransformedNode) (classFullName baseArgs : String) (isConst returnsVoid : Bool)
  (lib : LibraryName)

theorem contentLines_override
    (hkind : t.kind = .override classFullName baseArgs isConst returnsVoid) :
    contentLines (t.text lib).toList = (t.member lib).lines := by
  let vars := t.overrideVars classFullName baseArgs isConst returnsVoid lib
  have hhead : Text.Spells vars "virtual $RETURN_TYPE $NAME( $ARG_LIST )$CONST\x7b"
      ("virtual " ++ t.code.returnType ++ " " ++ t.name ++ "(" ++ (" " ++ t.code.argList ++ " ") ++
        ")" ++ (if isConst then " const" else "") ++ "\x7b") := by
    refine Text.spells_of_expandLine 0 ?_
    simp only [String.toList_append, List.append_assoc]
    rfl
  have hlookup : Text.Spells vars "    $OVERRIDE func_$ALIAS = this->get_override( \"$ALIAS\" );"
      (lib "override" ++ " func_" ++ t.pythonName ++ " = this->get_override( \"" ++
        t.pythonName ++ "\" );") := by
    refine Text.spells_of_expandLine 1 ?_
    simp only [String.toList_append, List.append_assoc]
    rfl
  have hif : Text.Spells vars "    if( func_$ALIAS )\x7b"
      ("if( func_" ++ t.pythonName ++ " )\x7b") := by
    refine Text.spells_of_expandLine 1 ?_
    simp only [String.toList_append, List.append_assoc]
    rfl
  have hcall : Text.Spells vars
      "        $\x7bRESULT_ASSIGNMENT\x7d$CALL< $RESULT_TYPE >( $INPUT_PARAMS );"
      (t.code.resultAssignment ++ lib "call" ++ "< " ++ t.code.resultType ++ " >( " ++
        t.overrideInput ++ " );") := by
    refine Text.spells_of_expandLine 2 ?_
    simp only [String.toList_append, List.append_assoc]
    rfl
  have hbase : Text.Spells vars "        $\x7bRETURN\x7d$CLASS::$NAME( $BASE_ARGS );"
      ((if returnsVoid then "" else "return ") ++ classFullName ++ "::" ++ t.name ++ "( " ++
        baseArgs ++ " );") := by
    refine Text.spells_of_expandLine 2 ?_
    simp only [String.toList_append, List.append_assoc]
    rfl
  unfold text member
  rw [hkind]
  refine Text.contentLines_fill (List.cons_ne_nil _ _) (by decide) ?_
  exact .cons hhead <| .cons hlookup <| .cons hif <|
    .cons (Text.spells_block "DECLARATIONS" (by decide) rfl rfl) <|
    .cons (Text.spells_block "PRE_CALL" (by decide) rfl rfl) <| .cons hcall <|
    .cons (Text.spells_block "POST_CALL" (by decide) rfl rfl) <|
    .cons (Text.spells_block "RETURN_STMT" (by decide) rfl rfl) <| .cons rfl <| .cons rfl <|
    .cons hbase <| .cons rfl <| .cons rfl .nil

end

/-- The text of a transformed function is its definition. -/
theorem contentLines_text (t : TransformedNode) (lib : LibraryName) :
    contentLines (t.text lib).toList = (t.member lib).lines := by
  cases hkind : t.kind with
  | function target => exact t.contentLines_function target lib hkind
  | override classFullName baseArgs isConst returnsVoid =>
    exact t.contentLines_override classFullName baseArgs isConst returnsVoid lib hkind

end TransformedNode

/-! ### Accessors -/

namespace AccessorNode

/-- What stands in front of the variable: its class, or an object of the class. -/
def owner (a : AccessorNode) : String := if a.isStatic then a.classFullName ++ "::" else "inst."

/-- The function that reads the variable. -/
def getter (a : AccessorNode) : MemberFunction where
  specifier := "static "
  type := a.type
  name := a.getterName
  params := if a.isStatic then "" else " " ++ a.classFullName ++ " const & inst "
  body := ["return " ++ a.owner ++ a.member ++ ";"]

/-- The function that writes the variable. -/
def setter (a : AccessorNode) : MemberFunction where
  specifier := "static "
  type := "void"
  name := a.setterName
  params := if a.isStatic then " " ++ a.type ++ " new_value "
    else " " ++ a.classFullName ++ " & inst, " ++ a.type ++ " new_value "
  body := [a.owner ++ a.member ++ " = new_value;"]

/-- The accessors of a variable; one that is constant is only read. -/
def members (a : AccessorNode) : List MemberFunction :=
  a.getter :: if a.readonly then [] else [a.setter]

/-- The variables of the templates. -/
def vars (a : AccessorNode) : Text.Vars :=
  [scalar "TYPE" a.type, scalar "MEMBER" a.member, scalar "CLASS" a.classFullName]

theorem contentLines_getter (a : AccessorNode) :
    contentLines (a.vars.fill a.getterTemplate).toList = a.getter.lines := by
  by_cases hstatic : a.isStatic
  · have hhead : Text.Spells a.vars "static $TYPE get_$MEMBER()\x7b" a.getter.head := by
      refine Text.spells_of_expandLine 0 ?_
      simp only [MemberFunction.head, getter, getterName, if_pos hstatic, String.toList_append,
        List.append_assoc]
      rfl
    have hreturn : Text.Spells a.vars "    return $CLASS::$MEMBER;"
        ("return " ++ a.owner ++ a.member ++ ";") := by
      refine Text.spells_of_expandLine 1 ?_
      simp only [owner, if_pos hstatic, String.toList_append, List.append_assoc]
      rfl
    have htemplate : a.getterTemplate = Text.unlines
        ["static $TYPE get_$MEMBER()\x7b", "    return $CLASS::$MEMBER;", "\x7d"] := by
      rw [getterTemplate, if_pos hstatic]
      decide
    rw [htemplate]
    exact Text.contentLines_fill (List.cons_ne_nil _ _) (by decide)
      (.cons hhead <| .cons hreturn <| .cons rfl .nil)
  · have hhead : Text.Spells a.vars "static $TYPE get_$MEMBER( $CLASS const & inst )\x7b"
        a.getter.head := by
      refine Text.spells_of_expandLine 0 ?_
      simp only [MemberFunction.head, getter, getterName, if_neg hstatic, String.toList_append,
        List.append_assoc]
      rfl
    have hreturn : Text.Spells a.vars "    return inst.$MEMBER;"
        ("return " ++ a.owner ++ a.member ++ ";") := by
      refine Text.spells_of_expandLine 1 ?_
      simp only [owner, if_neg hstatic, String.toList_append, List.append_assoc]
      rfl
    have htemplate : a.getterTemplate = Text.unlines
        ["static $TYPE get_$MEMBER( $CLASS const & inst )\x7b", "    return inst.$MEMBER;",
          "\x7d"] := by
      rw [getterTemplate, if_neg hstatic]
      decide
    rw [htemplate]
    exact Text.contentLines_fill (List.cons_ne_nil _ _) (by decide)
      (.cons hhead <| .cons hreturn <| .cons rfl .nil)

theorem contentLines_setter (a : AccessorNode) :
    contentLines (a.vars.fill a.setterTemplate).toList = a.setter.lines := by
  by_cases hstatic : a.isStatic
  · have hhead : Text.Spells a.vars "static void set_$MEMBER( $TYPE new_value )\x7b"
        a.setter.head := by
      refine Text.spells_of_expandLine 0 ?_
      simp only [MemberFunction.head, setter, setterName, if_pos hstatic, String.toList_append,
        List.append_assoc]
      rfl
    have hassign : Text.Spells a.vars "    $CLASS::$MEMBER = new_value;"
        (a.owner ++ a.member ++ " = new_value;") := by
      refine Text.spells_of_expandLine 1 ?_
      simp only [owner, if_pos hstatic, String.toList_append, List.append_assoc]
      rfl
    have htemplate : a.setterTemplate = Text.unlines
        ["static void set_$MEMBER( $TYPE new_value )\x7b", "    $CLASS::$MEMBER = new_value;",
          "\x7d"] := by
      rw [setterTemplate, if_pos hstatic]
      decide
    rw [htemplate]
    exact Text.contentLines_fill (List.cons_ne_nil _ _) (by decide)
      (.cons hhead <| .cons hassign <| .cons rfl .nil)
  · have hhead : Text.Spells a.vars
        "static void set_$MEMBER( $CLASS & inst, $TYPE new_value )\x7b" a.setter.head := by
      refine Text.spells_of_expandLine 0 ?_
      simp only [MemberFunction.head, setter, setterName, if_neg hstatic, String.toList_append,
        List.append_assoc]
      rfl
    have hassign : Text.Spells a.vars "    inst.$MEMBER = new_value;"
        (a.owner ++ a.member ++ " = new_value;") := by
      refine Text.spells_of_expandLine 1 ?_
      simp only [owner, if_neg hstatic, String.toList_append, List.append_assoc]
      rfl
    rw [setterTemplate, if_neg hstatic]
    exact Text.contentLines_fill (List.cons_ne_nil _ _) (by decide)
      (.cons hhead <| .cons hassign <| .cons rfl .nil)

/-- The text of accessors consists of their definitions. -/
theorem contentLines_text (a : AccessorNode) :
    contentLines a.text.toList = a.members.flatMap (·.lines) := by
  have hgetter := a.contentLines_getter
  have hsetter := a.contentLines_setter
  show contentLines (a.vars.fill a.getterTemplate ++
    if a.readonly then "" else "\n\n" ++ a.vars.fill a.setterTemplate).toList = _
  rw [members, List.flatMap_cons, ← hgetter, String.toList_append]
  by_cases hreadonly : a.readonly
  · have hempty : "".toList = [] := rfl
    rw [if_pos hreadonly, if_pos hreadonly, hempty, List.append_nil, List.flatMap_nil,
      List.append_nil]
  · have hgap : "\n\n".toList = '\n' :: ([] ++ ['\n']) := rfl
    rw [if_neg hreadonly, if_neg hreadonly, List.flatMap_singleton, ← hsetter,
      String.toList_append, hgap, List.cons_append, List.append_assoc, List.singleton_append,
      Text.contentLines_append, Text.contentLines_append, Text.contentLines_nil, List.nil_append]

end AccessorNode

/-! ### Nodes -/

/-- The functions that a node defines in its wrapper class. -/
def NodeKind.members (lib : LibraryName) : NodeKind → List MemberFunction
  | .shim s => s.members lib
  | .transformed t => [t.member lib]
  | .accessor a => a.members
  | _ => []

namespace NodeKind

/-- The sorts of nodes that define functions in wrapper classes. -/
def definesFunctions : NodeKind → Bool
  | shim _ | transformed _ | accessor _ => true
  | _ => false

/-- The node defines a function of this name, however the names of the library are written. -/
def Defines (kind : NodeKind) (name : String) : Prop :=
  ∀ lib, ∃ f ∈ kind.members lib, f.name = name

theorem Defines.definesFunctions {kind : NodeKind} {name : String} (h : kind.Defines name) :
    kind.definesFunctions := by
  obtain ⟨f, hf, -⟩ := h id
  cases kind with
  | shim | transformed | accessor => rfl
  | _ => cases hf

theorem defines_shim (s : ShimNode) : (shim s).Defines s.name := by
  intro lib
  show ∃ f ∈ s.members lib, _
  unfold ShimNode.members
  split <;> exact ⟨_, List.mem_cons_self, rfl⟩

/-- A stand-in that chooses has a default implementation. -/
theorem defines_default {s : ShimNode} (h : s.kind.dispatches) :
    (shim s).Defines s.defaultName := by
  intro lib
  show ∃ f ∈ s.members lib, _
  unfold ShimNode.members
  cases hkind : s.kind with
  | overridable | protOverridable =>
    exact ⟨_, List.mem_cons_of_mem _ (List.mem_singleton_self _), rfl⟩
  | _ => rw [hkind] at h; cases h

theorem defines_transformed (t : TransformedNode) : (transformed t).Defines t.name := by
  intro lib
  refine ⟨t.member lib, List.mem_singleton_self _, ?_⟩
  unfold TransformedNode.member
  split <;> rfl

theorem defines_getter (a : AccessorNode) : (accessor a).Defines a.getterName :=
  fun _ => ⟨a.getter, List.mem_cons_self, rfl⟩

theorem defines_setter {a : AccessorNode} (h : ¬ a.readonly) :
    (accessor a).Defines a.setterName := by
  intro _
  refine ⟨a.setter, List.mem_cons_of_mem _ ?_, rfl⟩
  rw [if_neg h]
  exact List.mem_singleton_self _

end NodeKind

/-- **The text of a node that defines functions consists of their definitions.** -/
theorem contentLines_text_of_definesFunctions {kind : NodeKind} (h : kind.definesFunctions)
    (lib : LibraryName) (children : List ChildText) :
    contentLines (kind.text lib children).toList = (kind.members lib).flatMap (·.lines) := by
  cases kind with
  | shim s => exact s.contentLines_text lib
  | transformed t => exact (t.contentLines_text lib).trans (List.flatMap_singleton _ _).symm
  | accessor a => exact a.contentLines_text
  | _ => cases h

end Bindery
