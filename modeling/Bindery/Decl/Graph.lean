import Bindery.Decl.Basic

/-!
# The declaration graph

All declarations of a translation unit, addressed by number.  Number 0 is the global namespace;
every other declaration names the scope it belongs to, and scopes list their members.

A walk along parents or members is bounded by the number of declarations: in a graph where
following parents ends, no walk visits a declaration twice, so the bound is never felt.

## Main definitions

* `DeclGraph` — the graph, `DeclGraph.initial` the one with the global namespace alone.
* `DeclGraph.fullName` — the qualified name of a declaration.
* `DeclGraph.enclosing` — the scopes around a declaration, innermost first.
* `DeclGraph.descendants` — everything below a scope, depth first.
-/

namespace Bindery

/-- The declarations of a translation unit, addressed by their place in the array. -/
structure DeclGraph where
  decls : Array Declaration
  deriving DecidableEq, Repr, Inhabited

/-- A declaration was asked for that the graph does not hold. -/
structure MissingDecl where
  id : DeclId
  deriving DecidableEq, Repr, Inhabited

namespace DeclGraph

/-- The global namespace. -/
def root : DeclId := 0

/-- The graph that holds only the global namespace. -/
def initial : DeclGraph := ⟨#[{ name := "::", kind := .ns [] }]⟩

/-- The number of declarations, the global namespace included. -/
def size (g : DeclGraph) : Nat := g.decls.size

/-- Nothing but the global namespace. -/
def isEmpty (g : DeclGraph) : Bool := g.size ≤ 1

/-- The declaration with the given number. -/
def get? (g : DeclGraph) (id : DeclId) : Option Declaration := g.decls[id]?

/-- The declaration with the given number, which the caller takes to exist. -/
def decl (g : DeclGraph) (id : DeclId) : Except MissingDecl Declaration :=
  match g.get? id with
  | some d => .ok d
  | none => .error ⟨id⟩

/-- The numbers of all declarations, ascending. -/
def ids (g : DeclGraph) : List DeclId := List.range g.size

/-- The numbers of all declarations but the global namespace, ascending. -/
def properIds (g : DeclGraph) : List DeclId := g.ids.drop 1

/-! ### Kinds -/

/-- What the declaration declares. -/
def kind? (g : DeclGraph) (id : DeclId) : Option DeclKind := (g.get? id).map (·.kind)

/-- The members of a namespace or class. -/
def members (g : DeclGraph) (id : DeclId) : List DeclId :=
  match g.kind? id with
  | some k => k.members
  | none => []

/-- The class with the given number. -/
def class? (g : DeclGraph) (id : DeclId) : Option ClassDecl :=
  match g.kind? id with
  | some (.cls c) => some c
  | _ => none

/-- The function with the given number. -/
def callable? (g : DeclGraph) (id : DeclId) : Option Callable :=
  match g.kind? id with
  | some (.callable c) => some c
  | _ => none

/-- The variable with the given number. -/
def varDecl? (g : DeclGraph) (id : DeclId) : Option VariableDecl :=
  match g.kind? id with
  | some (.variable v) => some v
  | _ => none

/-- The enumerators of the enumeration with the given number. -/
def enum? (g : DeclGraph) (id : DeclId) : Option (List Enumerator) :=
  match g.kind? id with
  | some (.enum values) => some values
  | _ => none

/-- The declaration is a class. -/
def isClass (g : DeclGraph) (id : DeclId) : Bool := (g.class? id).isSome

/-- The declaration is an enumeration. -/
def isEnum (g : DeclGraph) (id : DeclId) : Bool := (g.enum? id).isSome

/-- The declaration is a namespace or class. -/
def isScope (g : DeclGraph) (id : DeclId) : Bool :=
  match g.kind? id with
  | some k => k.isScope
  | none => false

/-- The access of a declaration that exists. -/
def access? (g : DeclGraph) (id : DeclId) : Option Access := (g.get? id).map (·.access)

/-- The declaration exists and is public. -/
def isPublic (g : DeclGraph) (id : DeclId) : Bool := g.access? id == some .pub

/-- The user's decisions about a declaration; a declaration that does not exist has the default
ones. -/
def config (g : DeclGraph) (id : DeclId) : ExportConfig :=
  match g.get? id with
  | some d => d.config
  | none => {}

/-- The name of a declaration without its scopes, empty for one that does not exist. -/
def name (g : DeclGraph) (id : DeclId) : String :=
  match g.get? id with
  | some d => d.name
  | none => ""

/-! ### Scopes and names -/

/-- The scope a declaration belongs to. -/
def parent? (g : DeclGraph) (id : DeclId) : Option DeclId := (g.get? id).bind (·.parent)

/-- The scopes around a declaration, innermost first, at most `fuel` of them. -/
def enclosingWithin (g : DeclGraph) : Nat → DeclId → List DeclId
  | 0, _ => []
  | fuel + 1, id =>
    match g.parent? id with
    | none => []
    | some p => p :: enclosingWithin g fuel p

/-- The scopes around a declaration, innermost first. -/
def enclosing (g : DeclGraph) (id : DeclId) : List DeclId := g.enclosingWithin g.size id

/-- The names of a declaration and the scopes around it, outermost first, the global namespace
left out. -/
def path (g : DeclGraph) (id : DeclId) : List String :=
  (((id :: g.enclosing id).takeWhile (· ≠ root)).filterMap fun i => (g.get? i).map (·.name)).reverse

/-- The qualified name of a declaration, such as `::geometry::Shape::area`. -/
def fullName (g : DeclGraph) (id : DeclId) : String :=
  match g.path id with
  | [] => "::"
  | names => "::" ++ "::".intercalate names

/-- The qualified name of an enumerator, which belongs to the scope around its enumeration. -/
def enumeratorFullName (g : DeclGraph) (enumeration : DeclId) (value : String) : String :=
  match g.parent? enumeration with
  | some p => if p = root then "::" ++ value else g.fullName p ++ "::" ++ value
  | none => "::" ++ value

/-- The C++ text of a type of this graph. -/
def spell (g : DeclGraph) (t : CppType) : String := t.spelling g.fullName

/-- The name under which Python sees a declaration: the configured alias or its own name. -/
def pythonName (g : DeclGraph) (id : DeclId) : Except MissingDecl String := do
  let d ← g.decl id
  return d.config.pythonName.getD d.name

/-- A name with the two colons of the global namespace in front. -/
def qualified (name : String) : String := if name.startsWith "::" then name else "::" ++ name

/-- Characters without the pairs of colons they begin with. -/
def dropColons : List Char → List Char
  | ':' :: ':' :: rest => dropColons rest
  | cs => cs

/-- A name without the colons of the global namespace. -/
def withoutRoot (name : String) : String := String.ofList (dropColons name.toList)

/-- All declarations with the given qualified name, ascending; the leading colons may be missing. -/
def findAll (g : DeclGraph) (name : String) : List DeclId :=
  g.properIds.filter fun id => g.fullName id == qualified name

/-- The class a declaration is a direct member of. -/
def parentClass? (g : DeclGraph) (id : DeclId) : Option DeclId := (g.parent? id).filter g.isClass

/-- The outermost class around a declaration, itself included. -/
def topClass? (g : DeclGraph) (id : DeclId) : Option DeclId :=
  ((id :: g.enclosing id).filter g.isClass).getLast?

/-- Public, as are all the classes directly around it up to the first scope that is no class. -/
def isPublicClass (g : DeclGraph) (id : DeclId) : Bool :=
  ((id :: g.enclosing id).takeWhile g.isClass).all g.isPublic

/-- The namespace `std` and everything in it. -/
def isStd (g : DeclGraph) (id : DeclId) : Bool :=
  let name := g.fullName id
  name == "::std" || name.startsWith "::std::"

/-- Everything below a scope, depth first in the order of members, at most `fuel` scopes deep. -/
def descendantsWithin (g : DeclGraph) : Nat → DeclId → List DeclId
  | 0, _ => []
  | fuel + 1, id => (g.members id).flatMap fun m => m :: descendantsWithin g fuel m

/-- Everything below a scope, depth first in the order of members. -/
def descendants (g : DeclGraph) (scope : DeclId) : List DeclId := g.descendantsWithin g.size scope

/-- The members of a scope with the given access; every member has to exist. -/
def membersWithAccess (g : DeclGraph) (id : DeclId) (access : Access) :
    Except MissingDecl (List DeclId) :=
  (g.members id).filterM fun m => do return (← g.decl m).access == access

/-- The other functions of the same name in the same scope. -/
def overloads (g : DeclGraph) (id : DeclId) : List DeclId :=
  match g.parent? id with
  | none => []
  | some p => (g.members p).filter fun m =>
      m ≠ id && (g.callable? m).isSome && g.name m == g.name id

/-! ### Types -/

/-- An enumeration of the graph, under `const` and `volatile`. -/
def isEnumType (g : DeclGraph) (t : CppType) : Bool :=
  match t.removeCv with
  | .declared id => g.isEnum id
  | _ => false

/-- A class of the graph, under `const` and `volatile`. -/
def isClassType (g : DeclGraph) (t : CppType) : Bool :=
  match t.removeCv with
  | .declared id => g.isClass id
  | _ => false

end DeclGraph

end Bindery
