import Bindery.Code.Registration
import Bindery.Code.Scope
import Bindery.Code.Tree
import Bindery.Code.WrapperMember

/-!
# The text of a code tree

The text of a node follows from what it writes, the namespace aliases in scope, and the texts of
its children.

## Main definitions

* `NodeKind.text` — the text of a node around the texts of its children.
* `CodeTree.freshText` — the text of a node as the tree stands.
* `CodeTree.render` — the text of a node, with remembered texts in place of their nodes.
-/

namespace Bindery

/-- The text of a node around the texts of its children. -/
def NodeKind.text (lib : LibraryName) (children : List ChildText) : NodeKind → String
  | module _ => moduleText children
  | license text => String.ofList (Text.trimEnd text.toList)
  | «include» header => "#include \"" ++ header ++ "\""
  | namespaceAlias n => n.text
  | moduleBody name => moduleBodyText name children
  | customText t => t.text
  | cls c => c.text lib children
  | wrapper w => w.text lib children
  | enum e => e.text lib
  | unnamedEnum values => unnamedEnumText values lib
  | maker m => m.text lib
  | shim s => s.text lib
  | transformed t => t.text lib
  | constructor c => c.text lib
  | constructorWrapper c => c.text lib
  | nullConstructorWrapper c => c.nullText lib
  | copyConstructorWrapper c => c.copyText lib
  | staticMethod pythonName => staticMethodText pythonName
  | operator o => o.text lib
  | implicitConversion source target => implicitConversionText source target lib
  | cast c => c.text lib
  | globalVariable pythonName fullName => globalVariableText pythonName fullName lib
  | memberVariable v => v.text
  | property p => p.text lib
  | accessor a => a.text
  | indexingSuite s => s.text lib

namespace CodeTree

/-- How a name of the binding library is written at a node. -/
def libraryName (t : CodeTree) (id : NodeId) : LibraryName := fun name =>
  t.shorten id (bindingLibrary ++ "::" ++ name)

/-- The children whose texts a node is written around. -/
def writtenChildren (t : CodeTree) (id : NodeId) (kind : NodeKind) : List NodeId :=
  if kind.isCompound then t.children id else []

/-- A child with its text, unless the text is empty. -/
def childText? (t : CodeTree) (id : NodeId) (text : String) : Option ChildText :=
  match t.kind? id with
  | some kind => if text.isEmpty then none else some ⟨kind, text⟩
  | none => none

/-- The text of a node, looking `fuel` levels down. -/
def freshTextWithin (t : CodeTree) : Nat → NodeId → String
  | 0, _ => ""
  | fuel + 1, id =>
    match t.kind? id with
    | none => ""
    | some kind =>
      kind.text (t.libraryName id) <| (t.writtenChildren id kind).filterMap fun c =>
        t.childText? c (freshTextWithin t fuel c)

/-- The text of a node as the tree stands, whatever is remembered. -/
def freshText (t : CodeTree) (id : NodeId) : String := t.freshTextWithin (t.size + 1) id

/-- Remembers the text of a node. -/
def remember (t : CodeTree) (id : NodeId) (text : String) : CodeTree :=
  t.modify id fun n => { n with cache := some text }

/-- The text of a node, looking `fuel` levels down; what is written is remembered. -/
def renderWithin : Nat → NodeId → StateM CodeTree String
  | 0, _ => pure ""
  | fuel + 1, id => do
    let t ← get
    match t.get? id with
    | none => return ""
    | some n =>
      match n.cache with
      | some text => return text
      | none =>
        let children ← (t.writtenChildren id n.kind).filterMapM fun c => do
          return t.childText? c (← renderWithin fuel c)
        let text := n.kind.text (t.libraryName id) children
        modifyThe CodeTree (·.remember id text)
        return text

/-- The text of a node, with remembered texts in place of their nodes.  Returns the tree in which
the text is remembered. -/
def render (t : CodeTree) (id : NodeId) : String × CodeTree := (renderWithin (t.size + 1) id).run t

end CodeTree

end Bindery
