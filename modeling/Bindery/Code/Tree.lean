import Bindery.Code.Node
import Bindery.Decl.Type

/-!
# The code tree

Nodes are kept in an array and addressed by number.  A new node stands alone until another node
adopts it; the order of children is the order of their texts.  Written text is remembered, and
forgotten again when the tree changes.

A walk along parents or children is bounded by the number of nodes, which is never felt, since
adoption refuses cycles.

## Main definitions

* `CodeTree` — the nodes; `CodeTree.ofKind` and `CodeTree.ofModule` begin a tree.
* `children`, `parent?`, `ancestors`, `descendants` — the shape.
* `create`, `adopt`, `remove`, `moveTo`, `replaceKind` — the edits.
* `CodeTree.shorten` — a full name, shortened by the namespace aliases in scope.
* `TreeError` — why an edit fails.
-/

namespace Bindery

/-- The number of a node: its place in the tree's array. -/
abbrev NodeId := Nat

/-- Why an edit of a tree fails. -/
inductive TreeError
  | unknownNode (id : NodeId)
  | alreadyAdopted (child parent : NodeId)
  | notCompound (id : NodeId)
  | notAChild (parent child : NodeId)
  | cycle (parent child : NodeId)
  | positionOutOfRange (parent : NodeId) (position len : Nat)
  deriving DecidableEq, Repr

/-- The failure in words. -/
def TreeError.message : TreeError → String
  | unknownNode id => s!"node#{id} does not belong to this tree"
  | alreadyAdopted child parent => s!"node#{child} already has parent node#{parent}"
  | notCompound id => s!"node#{id} is a leaf and cannot own children"
  | notAChild parent child => s!"node#{child} is not a child of node#{parent}"
  | cycle parent child => s!"adopting node#{child} into node#{parent} would create a cycle"
  | positionOutOfRange parent position len =>
    s!"position {position} is past the {len} children of node#{parent}"

/-- A node with its place in the tree. -/
structure CodeNode where
  kind : NodeKind
  parent : Option NodeId := none
  /-- The children in the order of their texts; leaves have no list. -/
  children : Option (List NodeId) := none
  /-- The headers that the text of the node needs. -/
  headers : List String := []
  /-- The declaration that the node is about. -/
  decl : Option DeclId := none
  /-- The text of the node, if it has been written since the last change. -/
  cache : Option String := none
  deriving DecidableEq, Repr, Inhabited

/-- The nodes of a tree; the root is node 0. -/
structure CodeTree where
  nodes : Array CodeNode := #[]
  deriving DecidableEq, Repr, Inhabited

namespace CodeTree

/-- The node that the tree began with. -/
def root : NodeId := 0

/-- The number of nodes. -/
def size (t : CodeTree) : Nat := t.nodes.size

/-- The node of the given number. -/
def get? (t : CodeTree) (id : NodeId) : Option CodeNode := t.nodes[id]?

/-- The node of the given number, which has to exist. -/
def node (t : CodeTree) (id : NodeId) : Except TreeError CodeNode :=
  match t.get? id with
  | some n => .ok n
  | none => .error (.unknownNode id)

/-- What a node writes. -/
def kind? (t : CodeTree) (id : NodeId) : Option NodeKind := (t.get? id).map (·.kind)

/-- The declaration a node is about. -/
def decl? (t : CodeTree) (id : NodeId) : Option DeclId := (t.get? id).bind (·.decl)

/-! ### Shape -/

/-- The node that has adopted a node. -/
def parent? (t : CodeTree) (id : NodeId) : Option NodeId := (t.get? id).bind (·.parent)

/-- The node may adopt others. -/
def hasChildList (t : CodeTree) (id : NodeId) : Bool := (t.get? id).any (·.children.isSome)

/-- The children of a node in the order of their texts. -/
def children (t : CodeTree) (id : NodeId) : List NodeId :=
  ((t.get? id).bind (·.children)).getD []

/-- The parent of a node, its parent, and so on, at most `fuel` of them. -/
def ancestorsWithin (t : CodeTree) : Nat → NodeId → List NodeId
  | 0, _ => []
  | fuel + 1, id =>
    match t.parent? id with
    | none => []
    | some p => p :: ancestorsWithin t fuel p

/-- The parent of a node, its parent, and so on. -/
def ancestors (t : CodeTree) (id : NodeId) : List NodeId := t.ancestorsWithin t.size id

/-- A node and everything below it down to a depth, in the order of the texts. -/
def descendantsWithin (t : CodeTree) : Nat → NodeId → List NodeId
  | 0, id => [id]
  | fuel + 1, id => id :: (t.children id).flatMap (descendantsWithin t fuel)

/-- A node and everything below it, in the order of the texts. -/
def descendants (t : CodeTree) (id : NodeId) : List NodeId := t.descendantsWithin t.size id

/-- The nodes below a node, itself included, whose kind satisfies a test. -/
def findAll (t : CodeTree) (id : NodeId) (p : NodeKind → Bool) : List NodeId :=
  (t.descendants id).filter fun n => (t.kind? n).any p

/-- The headers noted at a node. -/
def headers (t : CodeTree) (id : NodeId) : List String := ((t.get? id).map (·.headers)).getD []

/-- The headers that a node and everything below it need, each once. -/
def requiredHeaders (t : CodeTree) (id : NodeId) : Except TreeError (List String) := do
  let _ ← t.node id
  return ((t.descendants id).flatMap t.headers).eraseDups

/-! ### Remembered texts -/

/-- Changes a node; a number without a node changes nothing. -/
def modify (t : CodeTree) (id : NodeId) (f : CodeNode → CodeNode) : CodeTree :=
  ⟨t.nodes.modify id f⟩

/-- Forgets the text of a node. -/
def forget (t : CodeTree) (id : NodeId) : CodeTree := t.modify id fun n => { n with cache := none }

/-- Forgets the texts of some nodes. -/
def forgetEach (t : CodeTree) (ids : List NodeId) : CodeTree := ids.foldl forget t

/-- Forgets the texts that contain the text of a node. -/
def forgetUp (t : CodeTree) (id : NodeId) : CodeTree := t.forgetEach (id :: t.ancestors id)

/-- Forgets the texts of a node and of everything below it. -/
def forgetDown (t : CodeTree) (id : NodeId) : CodeTree := t.forgetEach (t.descendants id)

/-- Forgets all texts. -/
def forgetAll (t : CodeTree) : CodeTree := ⟨t.nodes.map fun n => { n with cache := none }⟩

/-- Forgets what the coming or going of a child of `parent` changes.  A namespace alias may change
every text. -/
def forgetAround (t : CodeTree) (parent child : NodeId) : CodeTree :=
  match t.kind? child with
  | some (.namespaceAlias _) => t.forgetAll
  | _ => (t.forgetDown child).forgetUp parent

/-! ### Edits -/

/-- Adds a node that stands alone.  Returns its number. -/
def create (t : CodeTree) (kind : NodeKind) (decl : Option DeclId := none) : NodeId × CodeTree :=
  (t.size,
    ⟨t.nodes.push { kind, decl, children := if kind.isCompound then some [] else none }⟩)

/-- A tree with one node. -/
def ofKind (kind : NodeKind) : CodeTree := (create {} kind).2

/-- Makes a node that stands alone a child of another, in front of the child at a position. -/
def adoptAt (t : CodeTree) (parent child : NodeId) (position : Nat) :
    Except TreeError CodeTree := do
  let c ← t.node child
  if let some current := c.parent then throw (.alreadyAdopted child current)
  if child = parent ∨ child ∈ t.ancestors parent then throw (.cycle parent child)
  let p ← t.node parent
  match p.children with
  | none => throw (.notCompound parent)
  | some cs =>
    if position > cs.length then throw (.positionOutOfRange parent position cs.length)
    let t := t.modify parent fun n => { n with children := some (cs.insertIdx position child) }
    let t := t.modify child fun n => { n with parent := some parent }
    return t.forgetAround parent child

/-- Makes a node that stands alone the last child of another. -/
def adopt (t : CodeTree) (parent child : NodeId) : Except TreeError CodeTree :=
  t.adoptAt parent child (t.children parent).length

/-- Makes a child stand alone. -/
def remove (t : CodeTree) (parent child : NodeId) : Except TreeError CodeTree := do
  let _ ← t.node child
  let p ← t.node parent
  match p.children with
  | none => throw (.notCompound parent)
  | some cs =>
    if child ∉ cs then throw (.notAChild parent child)
    let t := t.modify parent fun n => { n with children := some (cs.erase child) }
    let t := t.modify child fun n => { n with parent := none }
    return t.forgetAround parent child

/-- Takes a node from its parent, if it has one. -/
def detach (t : CodeTree) (child : NodeId) : Except TreeError CodeTree := do
  match (← t.node child).parent with
  | some current => t.remove current child
  | none => return t

/-- Takes a node from its parent and makes it a child of another, at a position or at the end.
Returns the failure, if there is one, and the tree; a node that is refused stands alone. -/
def moveTo (t : CodeTree) (parent child : NodeId) (position : Nat) :
    Except TreeError Unit × CodeTree :=
  match t.detach child with
  | .error e => (.error e, t)
  | .ok t =>
    match t.adoptAt parent child (min position (t.children parent).length) with
    | .error e => (.error e, t)
    | .ok t => (.ok (), t)

/-- Notes a header that the text of a node needs. -/
def addHeader (t : CodeTree) (id : NodeId) (header : String) : Except TreeError CodeTree := do
  let _ ← t.node id
  return t.modify id fun n =>
    if header ∈ n.headers then n else { n with headers := n.headers ++ [header] }

/-- Changes what a node writes.  A leaf stays a leaf, and a node with a child list keeps it. -/
def replaceKind (t : CodeTree) (id : NodeId) (kind : NodeKind) : Except TreeError CodeTree := do
  let _ ← t.node id
  return (t.forgetUp id).modify id fun n => { n with kind }

/-! ### Modules -/

/-- The module body. -/
def body? (t : CodeTree) : Option NodeId :=
  (t.children root).find? fun c => (t.kind? c).any (· matches .moduleBody _)

/-- The headers that the module includes. -/
def includes (t : CodeTree) : List String :=
  (t.children root).filterMap fun c =>
    match t.kind? c with
    | some (.include header) => some header
    | _ => none

/-- The license and the includes at the beginning of a module. -/
def isPreamble : NodeKind → Bool
  | .license _ | .include _ => true
  | _ => false

/-- Includes one more header, behind the others; a header that is included already is passed over.
Returns the failure, if there is one, and the tree. -/
def addInclude (t : CodeTree) (header : String) : Except TreeError Unit × CodeTree :=
  if header ∈ t.includes then (.ok (), t)
  else
    let preamble := (t.children root).takeWhile fun c => (t.kind? c).any isPreamble
    let (id, t) := t.create (.include header)
    match t.adoptAt root id preamble.length with
    | .error e => (.error e, t)
    | .ok t => (.ok (), t)

/-- Adopts a node into the module in front of its body. -/
def adoptBeforeBody (t : CodeTree) (id : NodeId) : Except TreeError CodeTree :=
  let before := (t.children root).takeWhile fun c => !(t.kind? c).any (· matches .moduleBody _)
  t.adoptAt root id before.length

/-- Adds a node as the last child of the root. -/
def append (t : CodeTree) (kind : NodeKind) : Except TreeError CodeTree :=
  let (id, t) := t.create kind
  t.adopt root id

/-- The namespace of the binding library. -/
def bindingLibrary : String := "::boost::python"

/-- A module: the license if there is one, the header of the binding library, the alias of its
namespace unless it is empty, and an empty body. -/
def ofModule (name : String) (license : Option String) (nspaceName : String) :
    Except TreeError CodeTree := do
  let t := ofKind (.module name)
  let t ← match license with
    | some text => t.append (.license text)
    | none => pure t
  let t ← t.append (.include "boost/python.hpp")
  let t ← if nspaceName.isEmpty then pure t
    else t.append (.namespaceAlias ⟨nspaceName, bindingLibrary⟩)
  t.append (.moduleBody name)

/-! ### Names -/

/-- A full name in the namespace of an alias, with the alias in place of the namespace. -/
def applyAlias (a : NamespaceAlias) (fullName : String) : Option String :=
  let front := a.nspace.toList ++ [':', ':']
  if front.isPrefixOf fullName.toList then
    some (a.name ++ "::" ++ String.ofList (fullName.toList.drop front.length))
  else none

/-- The aliases among the nodes in front of a node in its parent, nearest first. -/
def aliasesBefore (t : CodeTree) (parent id : NodeId) : List NamespaceAlias :=
  (((t.children parent).takeWhile (· ≠ id)).filterMap fun c =>
    match t.kind? c with
    | some (.namespaceAlias a) => some a
    | _ => none).reverse

/-- The aliases in scope at a node, nearest first: those in front of it, then those in front of its
ancestors. -/
def aliasesInScopeFrom (t : CodeTree) (id : NodeId) : List NodeId → List NamespaceAlias
  | [] => []
  | p :: rest => t.aliasesBefore p id ++ aliasesInScopeFrom t p rest

/-- The aliases in scope at a node, nearest first. -/
def aliasesInScope (t : CodeTree) (id : NodeId) : List NamespaceAlias :=
  t.aliasesInScopeFrom id (t.ancestors id)

/-- A full name, shortened by the nearest alias in scope at a node that covers it. -/
def shorten (t : CodeTree) (id : NodeId) (fullName : String) : String :=
  ((t.aliasesInScope id).findSome? (applyAlias · fullName)).getD fullName

end CodeTree

end Bindery
