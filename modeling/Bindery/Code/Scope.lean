import Bindery.Code.Expression
import Bindery.Text.Template

/-!
# Nodes with children

Modules, module bodies, classes and wrapper classes are written around the texts of their children.

## Main definitions

* `ChildText` — a child with its text.
* `moduleText`, `moduleBodyText`, `ClassNode.text`, `WrapperNode.text` — the texts.
-/

namespace Bindery

open Text (scalar block)

/-- A child with its text, which is not empty. -/
structure ChildText where
  kind : NodeKind
  text : String
  deriving DecidableEq, Repr, Inhabited

/-! ### Modules -/

/-- The child is an include. -/
def ChildText.isInclude (c : ChildText) : Bool := c.kind matches .include _

/-- Appends the texts of children, with a blank line in front of each; includes follow each other
without one. -/
def joinChildren (before : ChildText) : List ChildText → String
  | [] => ""
  | c :: rest =>
    (if c.isInclude && before.isInclude then "\n" else "\n\n") ++ c.text ++ joinChildren c rest

/-- The text of a module. -/
def moduleText (children : List ChildText) : String :=
  let code := match children with
    | [] => ""
    | c :: rest => c.text ++ joinChildren c rest
  Text.Vars.fill [block "CODE" code] "$CODE"

/-- The text of the function in which everything is registered. -/
def moduleBodyText (name : String) (children : List ChildText) : String :=
  Text.Vars.fill
    [scalar "NAME" name, block "BODY" ("\n\n".intercalate (children.map (·.text)))]
    "BOOST_PYTHON_MODULE($NAME)\x7b\n    $BODY\n\x7d"

/-- A text without any colons in pairs at its front. -/
def dropColons : List Char → List Char
  | ':' :: ':' :: rest => dropColons rest
  | s => s

/-- The definition of a namespace alias. -/
def NamespaceAlias.text (a : NamespaceAlias) : String :=
  Text.Vars.fill
    [scalar "ALIAS" a.name, scalar "NAMESPACE" (String.ofList (dropColons a.nspace.toList))]
    "namespace $ALIAS = $NAMESPACE;"

/-! ### Classes -/

namespace ClassNode

/-- The type of the class object. -/
def classType (c : ClassNode) (lib : LibraryName) : String :=
  let args := [c.wrapper.getD c.fullName] ++
    (if c.bases.isEmpty then [] else [lib "bases" ++ "< " ++ ", ".intercalate c.bases ++ " >"]) ++
    (if c.noncopyable then ["boost::noncopyable"] else [])
  lib "class_" ++ "< " ++ ", ".intercalate args ++ " >"

/-- The arguments of the class object. -/
def constructorArgs (c : ClassNode) (lib : LibraryName) : String :=
  ", ".intercalate <|
    [quoted c.pythonName] ++ (c.documentation.map quoted).toList ++
      if c.noInit then [lib "no_init"] else []

/-- The variables of the templates. -/
def vars (c : ClassNode) (lib : LibraryName) : Text.Vars :=
  [scalar "CLASS_TYPE" (c.classType lib), scalar "CTOR_ARGS" (c.constructorArgs lib)]

/-- The registration needs a block with a variable for the class object. -/
def needsScope (c : ClassNode) (children : List ChildText) : Bool :=
  c.alwaysExposeUsingScope ||
    children.any fun d => !d.kind.worksOnInstance || d.kind matches .staticMethod _

/-- The registration as one chain of calls. -/
def chainedText (c : ClassNode) (lib : LibraryName) (children : List ChildText) : String :=
  if children.isEmpty then (c.vars lib).fill "$CLASS_TYPE( $CTOR_ARGS );"
  else
    let calls := "\n".intercalate (children.map ("." ++ ·.text)) ++ ";"
    Text.Vars.fill (c.vars lib ++ [block "MEMBERS" calls]) "$CLASS_TYPE( $CTOR_ARGS )\n    $MEMBERS"

/-- The variable for the class object. -/
def variableName (c : ClassNode) : String := c.exposer ++ "_exposer"

/-- The statement of a child in a block: a call on the class object, or its own text. -/
def memberStatement (c : ClassNode) (d : ChildText) : String :=
  if d.kind.worksOnInstance then c.variableName ++ "." ++ d.text ++ ";" else d.text

/-- The registration as a block. -/
def scopedText (c : ClassNode) (lib : LibraryName) (children : List ChildText) : String :=
  let scope :=
    if children.any fun d => !d.kind.worksOnInstance then
      lib "scope" ++ " " ++ c.exposer ++ "_scope( " ++ c.variableName ++ " );"
    else ""
  Text.Vars.fill
    (c.vars lib ++
      [scalar "FULL_NAME" c.fullName, scalar "EXPOSER" c.variableName, block "SCOPE" scope,
       block "MEMBERS" ("\n".intercalate (children.map c.memberStatement))])
    (Text.unlines
      ["\x7b //$FULL_NAME",
       "    typedef $CLASS_TYPE $\x7bEXPOSER\x7d_t;",
       "    $\x7bEXPOSER\x7d_t $EXPOSER = $\x7bEXPOSER\x7d_t( $CTOR_ARGS );",
       "    $SCOPE",
       "    $MEMBERS",
       "\x7d"])

/-- The registration of a class. -/
def text (c : ClassNode) (lib : LibraryName) (children : List ChildText) : String :=
  if c.needsScope children then c.scopedText lib children else c.chainedText lib children

end ClassNode

/-- The definition of a wrapper class. -/
def WrapperNode.text (w : WrapperNode) (lib : LibraryName) (children : List ChildText) : String :=
  Text.Vars.fill
    [scalar "ALIAS" w.name, scalar "CLASS" w.classFullName, scalar "WRAPPER" (lib "wrapper"),
     block "MEMBERS" ("\n\n".intercalate (children.map (·.text)))]
    "struct $ALIAS : $CLASS, $WRAPPER< $CLASS > \x7b\n\n    $MEMBERS\n\n\x7d;"

end Bindery
