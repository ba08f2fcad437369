import Bindery.Decl.Graph

/-!
# Class hierarchies

Base classes, overriding and copyability.  Bases may repeat and may even form cycles, so the
walks over them remember what they have met; each walk is bounded by the number of base edges of
the graph, and every declaration is met through one of those edges at most once.

## Main definitions

* `DeclGraph.recursiveBases` — all bases of a class, nearest first.
* `DeclGraph.sameSignature` — two functions of which one overrides the other.
* `DeclGraph.unimplementedPureVirtuals` — what a class leaves for its heirs to implement.
* `DeclGraph.isNoncopyable` — classes that the binding cannot copy.
-/

namespace Bindery.DeclGraph

/-- The direct bases of a class. -/
def bases (g : DeclGraph) (id : DeclId) : List DeclId :=
  match g.class? id with
  | some c => c.bases.map (·.base)
  | none => []

/-- The number of base edges of the graph. -/
def baseEdges (g : DeclGraph) : Nat := (g.ids.flatMap g.bases).length

/-- Of the candidates, those that are neither the start of the walk nor already found, each once. -/
def freshBases (start : DeclId) (found : List DeclId) : List DeclId → List DeclId
  | [] => []
  | b :: rest =>
    if b = start ∨ b ∈ found then freshBases start found rest
    else b :: freshBases start (found ++ [b]) rest

/-- Breadth-first search along base edges: `queue` holds the classes whose bases are still to be
looked at, `found` all bases met so far. -/
def basesFrom (g : DeclGraph) (start : DeclId) : Nat → List DeclId → List DeclId → List DeclId
  | 0, _, found => found
  | _ + 1, [], found => found
  | fuel + 1, c :: queue, found =>
    let fresh := freshBases start found (g.bases c)
    basesFrom g start fuel (queue ++ fresh) (found ++ fresh)

/-- All base classes of a class, nearest first and each once; the class itself is not among them. -/
def recursiveBases (g : DeclGraph) (id : DeclId) : List DeclId :=
  g.basesFrom id (g.baseEdges + 1) [id] []

/-! ### Members of a class -/

/-- The functions of a scope. -/
def callables (g : DeclGraph) (scope : DeclId) : List (DeclId × Callable) :=
  (g.members scope).filterMap fun m => (g.callable? m).map (m, ·)

/-- The constructors of a class. -/
def constructors (g : DeclGraph) (id : DeclId) : List DeclId :=
  ((g.callables id).filter (·.2.isConstructor)).map (·.1)

/-- The first constructor marked as the copy constructor. -/
def copyConstructor? (g : DeclGraph) (id : DeclId) : Option DeclId :=
  ((g.callables id).find? (·.2.isCopyConstructor)).map (·.1)

/-- The first constructor without parameters. -/
def trivialConstructor? (g : DeclGraph) (id : DeclId) : Option DeclId :=
  ((g.callables id).find? fun c => c.2.isConstructor && c.2.args.isEmpty).map (·.1)

/-- The class has a public copy constructor, declared or implicit. -/
def hasTrivialCopy (g : DeclGraph) (id : DeclId) : Bool :=
  match g.copyConstructor? id with
  | some c => g.isPublic c
  | none => true

/-- No destructor of the class is hidden. -/
def hasPublicDestructor (g : DeclGraph) (id : DeclId) : Bool :=
  ((g.callables id).filter (·.2.kind == .destructor)).all fun c => g.isPublic c.1

/-! ### Overriding -/

/-- Functions with the same name, the same parameter types and the same constness. -/
def sameSignature (g : DeclGraph) (a b : DeclId) : Bool :=
  match g.callable? a, g.callable? b with
  | some ca, some cb =>
    g.name a == g.name b && ca.isConst == cb.isConst && ca.argTypes == cb.argTypes
  | _, _ => false

/-- The pure virtual functions a class declares. -/
def pureVirtuals (g : DeclGraph) (id : DeclId) : List DeclId :=
  ((g.callables id).filter (·.2.virtuality == .pure)).map (·.1)

/-- The class declares a function with the signature of `f` that is not pure virtual. -/
def implements (g : DeclGraph) (id f : DeclId) : Bool :=
  (g.callables id).any fun c => c.2.virtuality != .pure && g.sameSignature f c.1

/-- Goes through the classes of a hierarchy, nearest first, and collects the pure virtual
functions that no nearer class implements, one for each signature. -/
def unimplementedFrom (g : DeclGraph) (nearer : List DeclId) (found : List DeclId) :
    List DeclId → List DeclId
  | [] => found
  | owner :: rest =>
    let found := (g.pureVirtuals owner).foldl (fun found f =>
      if nearer.any (g.implements · f) || found.any (g.sameSignature · f) then found
      else found ++ [f]) found
    unimplementedFrom g (nearer ++ [owner]) found rest

/-- The pure virtual functions of a class and its bases that no nearer class implements. -/
def unimplementedPureVirtuals (g : DeclGraph) (id : DeclId) : List DeclId :=
  g.unimplementedFrom [] [] (id :: g.recursiveBases id)

/-- The class leaves a pure virtual function unimplemented. -/
def isAbstract (g : DeclGraph) (id : DeclId) : Bool := !(g.unimplementedPureVirtuals id).isEmpty

/-! ### Copyability -/

/-- A member variable of the class that rules out assignment: not static, and a constant or a
reference. -/
def hasFixedMember (g : DeclGraph) (id : DeclId) : Bool :=
  (g.members id).any fun m =>
    match g.varDecl? m with
    | some v => !v.isStatic && (v.type.isConst || v.type.isReference)
    | none => false

/-- The class itself, without regard to its bases, cannot be copied. -/
def blocksCopy (g : DeclGraph) (id : DeclId) : Bool :=
  !g.hasTrivialCopy id || !g.hasPublicDestructor id || g.isAbstract id || g.hasFixedMember id

/-- Depth-first search for a class that cannot be copied, along base edges and up to classes
whose copyability the user has decided.  Returns the classes visited as well. -/
def noncopyableFrom (g : DeclGraph) : Nat → List DeclId → DeclId →
    Except MissingDecl (Bool × List DeclId)
  | 0, seen, _ => .ok (false, seen)
  | fuel + 1, seen, id =>
    if id ∈ seen then .ok (false, seen)
    else do
      let d ← g.decl id
      let seen := id :: seen
      match d.config.noncopyable, d.kind with
      | some decided, _ => return (decided, seen)
      | none, .cls _ =>
        if g.blocksCopy id then return (true, seen)
        else (g.bases id).foldlM (fun acc b =>
          if acc.1 then pure acc else noncopyableFrom g fuel acc.2 b) (false, seen)
      | none, _ => return (false, seen)

/-- Classes that the binding cannot copy. -/
def isNoncopyable (g : DeclGraph) (id : DeclId) : Except MissingDecl Bool := do
  return (← g.noncopyableFrom (g.baseEdges + 2) [] id).1

end Bindery.DeclGraph
