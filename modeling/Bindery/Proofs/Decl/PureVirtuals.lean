import Bindery.Decl.Validation
import Bindery.Proofs.Decl.Bases
import Bindery.Proofs.Decl.Overriding
import Mathlib.Data.List.Chain

/-!
# Which pure virtual functions are left

A pure virtual function is implemented for a class by the class itself, or by a class between it
and the one that declares the function.  The search for what is left goes through all bases nearest
first instead, and takes every class that it has met before for one in between.  So only the first
class that declares the signature decides, be it related to the others or not.

## Main definitions

* `DeclGraph.Leaves c f` — `f`, or another function of its signature, is left unimplemented.
* `DeclGraph.NearestIsPure c f` — the nearest class that declares the signature declares it pure
  virtual.
* `DeclGraph.ImplementedAlong c b f` — a class on a path from `c` to `b` implements `f`.
* `DeclGraph.PathsDecide c` — just what no path implements is left.
* `DeclGraph.NearestFollowsPaths c` — the nearest class of a signature decides as the paths do.
* `DeclGraph.IsLine c` — each class of the hierarchy is a base of the one in front of it.

## Main results

* `leaves_iff` — what is left is what the nearest class declares pure virtual.
* `isAbstract_iff` — a class is abstract if there is any such function.
* `IsLine.isAbstract_iff` — in a line, a class is abstract as the paths say.
* `pathsDecide_iff` — **the paths decide exactly if the nearest classes follow them.**
-/

namespace Bindery.DeclGraph

variable {g : DeclGraph} {b c d f x owner : DeclId} {found nearer front back classes : List DeclId}

/-- The function is left unimplemented by the class, or another one of its signature is. -/
def Leaves (g : DeclGraph) (c f : DeclId) : Prop :=
  ∃ x ∈ g.unimplementedPureVirtuals c, g.sameSignature x f

/-- The nearest class of the hierarchy that declares the signature of `f`. -/
def nearestDeclaring? (g : DeclGraph) (c f : DeclId) : Option DeclId :=
  (c :: g.recursiveBases c).find? (g.declares · f)

/-- The nearest class that declares the signature of `f` declares a pure virtual function of it. -/
def NearestIsPure (g : DeclGraph) (c f : DeclId) : Prop :=
  ∃ owner ∈ g.nearestDeclaring? c f, ∃ x ∈ g.pureVirtuals owner, g.sameSignature x f

/-- A class other than `b`, between `c` and `b` or `c` itself, implements `f`. -/
def ImplementedAlong (g : DeclGraph) (c b f : DeclId) : Prop :=
  ∃ d, g.DerivesFrom c d ∧ d ≠ b ∧ g.DerivesFrom d b ∧ g.implements d f

/-- What is left by a class are the pure virtual functions that no class on a path to them
implements. -/
structure PathsDecide (g : DeclGraph) (c : DeclId) : Prop where
  leaves : ∀ b f, g.DerivesFrom c b → f ∈ g.pureVirtuals b →
    (g.Leaves c f ↔ ¬ g.ImplementedAlong c b f)
  isAbstract : g.isAbstract c ↔
    ∃ b f, g.DerivesFrom c b ∧ f ∈ g.pureVirtuals b ∧ ¬ g.ImplementedAlong c b f

/-- The nearest class that declares a signature decides about the pure virtual functions of the
signature as the paths to them do. -/
structure NearestFollowsPaths (g : DeclGraph) (c : DeclId) : Prop where
  /-- Nothing that is declared pure virtual nearest is implemented on a path. -/
  unimplemented : ∀ b f, g.DerivesFrom c b → f ∈ g.pureVirtuals b → g.NearestIsPure c f →
    ¬ g.ImplementedAlong c b f
  /-- What is not pure virtual nearest is implemented on a path, and not just in another base. -/
  implemented : ∀ b f, g.DerivesFrom c b → f ∈ g.pureVirtuals b → ¬ g.NearestIsPure c f →
    g.ImplementedAlong c b f

/-- Each class of the hierarchy is a base of the one in front of it, as it is where no class has two
bases, and they do not go round in a circle. -/
structure IsLine (g : DeclGraph) (c : DeclId) : Prop where
  chain : (c :: g.recursiveBases c).IsChain fun d b => b ∈ g.bases d
  acyclic : ∀ d ∈ c :: g.recursiveBases c, ∀ b ∈ g.bases d, ¬ g.DerivesFrom b d

theorem implementedAlong_iff : g.ImplementedAlong c b f ↔
    ∃ d ∈ c :: g.recursiveBases c, d ≠ b ∧ g.DerivesFrom d b ∧ g.implements d f :=
  exists_congr fun _ => and_congr_left' derivesFrom_iff

instance (g : DeclGraph) (c b f : DeclId) : Decidable (g.ImplementedAlong c b f) :=
  decidable_of_iff _ implementedAlong_iff.symm

/-! ### Searches -/

theorem nearestDeclaring?_eq_some : g.nearestDeclaring? c f = some owner ↔
    g.declares owner f ∧ ∃ front back, c :: g.recursiveBases c = front ++ owner :: back ∧
      ∀ a ∈ front, ¬ g.declares a f := by
  unfold nearestDeclaring?
  rw [List.find?_eq_some_iff_append]
  simp only [Bool.not_eq_true', Bool.not_eq_true]

theorem subset_unimplementedFrom : ∀ (classes nearer found : List DeclId),
    found ⊆ g.unimplementedFrom nearer found classes
  | [], _, found => List.Subset.refl found
  | _ :: classes, nearer, found =>
    List.Subset.trans (subset_addUnimplemented nearer _ found)
      (subset_unimplementedFrom classes _ _)

/-- A pure virtual function that no nearer class implements is found, or one of its signature. -/
theorem exists_mem_unimplementedFrom (back : List DeclId) (hf : f ∈ g.pureVirtuals owner) :
    ∀ {front nearer : List DeclId} (found : List DeclId), (∀ a ∈ nearer, ¬ g.implements a f) →
      (∀ a ∈ front, ¬ g.implements a f) →
      ∃ x ∈ g.unimplementedFrom nearer found (front ++ owner :: back), g.sameSignature x f
  | [], nearer, found, hnearer, _ => by
    obtain ⟨-, k, hk, -⟩ := mem_pureVirtuals.mp hf
    obtain ⟨x, hx, hsame⟩ := exists_mem_addUnimplemented found hf (by rw [hk]; rfl) hnearer
    exact ⟨x, subset_unimplementedFrom back _ _ hx, hsame⟩
  | a :: front, nearer, found, hnearer, hfront => by
    obtain ⟨ha, hfront⟩ := List.forall_mem_cons.mp hfront
    rw [List.cons_append, unimplementedFrom_cons]
    refine exists_mem_unimplementedFrom back hf _ (fun d hd => ?_) hfront
    rcases List.mem_append.mp hd with hd | hd
    · exact hnearer d hd
    · exact List.mem_singleton.mp hd ▸ ha

theorem exists_mem_unimplementedPureVirtuals
    (hclasses : c :: g.recursiveBases c = front ++ owner :: back) (hf : f ∈ g.pureVirtuals owner)
    (hfront : ∀ a ∈ front, ¬ g.implements a f) :
    ∃ x ∈ g.unimplementedPureVirtuals c, g.sameSignature x f := by
  unfold unimplementedPureVirtuals
  rw [hclasses]
  exact exists_mem_unimplementedFrom back hf [] (List.forall_mem_nil _) hfront

theorem declares_of_implements (h : g.implements c f) : g.declares c f := by
  obtain ⟨x, k, hx, -, hsame⟩ := implements_iff.mp h
  exact declares_iff.mpr ⟨x, (mem_callables.mp hx).1, sameSignature_symm hsame⟩

/-! ### What is left -/

/-- **What is left is what the nearest class of its signature declares pure virtual.** -/
theorem leaves_iff : g.Leaves c f ↔ g.NearestIsPure c f := by
  constructor
  · rintro ⟨x, hx, hsame⟩
    obtain ⟨front, owner, back, hclasses, hpure, hfront⟩ := nearest_of_unimplemented hx
    have howner : g.declares owner f := declares_iff.mpr ⟨x, (mem_pureVirtuals.mp hpure).1, hsame⟩
    have hnearest : ∀ a ∈ front, ¬ g.declares a f := fun a ha h =>
      hfront a ha (declares_of_sameSignature h (sameSignature_symm hsame))
    exact ⟨owner, nearestDeclaring?_eq_some.mpr ⟨howner, front, back, hclasses, hnearest⟩, x,
      hpure, hsame⟩
  · rintro ⟨owner, howner, x, hpure, hsame⟩
    obtain ⟨-, front, back, hclasses, hfront⟩ := nearestDeclaring?_eq_some.mp howner
    -- an implementation in front would be a nearer declaration
    have hnot : ∀ a ∈ front, ¬ g.implements a x := fun a ha h =>
      hfront a ha (declares_of_implements (implements_of_sameSignature h hsame))
    obtain ⟨y, hy, hyx⟩ := exists_mem_unimplementedPureVirtuals hclasses hpure hnot
    exact ⟨y, hy, sameSignature_trans hyx hsame⟩

/-- Whatever is left is a pure virtual function of a class of the hierarchy. -/
theorem exists_pureVirtuals_of_mem (h : f ∈ g.unimplementedPureVirtuals c) :
    ∃ b, g.DerivesFrom c b ∧ f ∈ g.pureVirtuals b ∧ g.Leaves c f := by
  obtain ⟨front, owner, back, hclasses, hpure, -⟩ := nearest_of_unimplemented h
  obtain ⟨-, k, hk, -⟩ := mem_pureVirtuals.mp hpure
  refine ⟨owner, derivesFrom_iff.mpr ?_, hpure, f, h, sameSignature_self (by rw [hk]; rfl)⟩
  rw [hclasses]
  exact List.mem_append_right front List.mem_cons_self

theorem isAbstract_iff_exists_mem : g.isAbstract c ↔ ∃ x, x ∈ g.unimplementedPureVirtuals c := by
  rw [isAbstract, Bool.not_eq_true', List.isEmpty_eq_false_iff_exists_mem]

/-- **A class is abstract if it leaves any pure virtual function of its hierarchy.** -/
theorem isAbstract_iff : g.isAbstract c ↔
    ∃ b f, g.DerivesFrom c b ∧ f ∈ g.pureVirtuals b ∧ g.Leaves c f := by
  rw [isAbstract_iff_exists_mem]
  constructor
  · rintro ⟨x, hx⟩
    obtain ⟨b, h⟩ := exists_pureVirtuals_of_mem hx
    exact ⟨b, x, h⟩
  · rintro ⟨-, -, -, -, x, hx, -⟩
    exact ⟨x, hx⟩

/-! ### Lines -/

/-- In a line, just the classes in front of a base derive from it. -/
theorem IsLine.mem_front_iff (h : g.IsLine c)
    (hclasses : c :: g.recursiveBases c = front ++ b :: back)
    (hd : d ∈ c :: g.recursiveBases c) : d ∈ front ↔ d ≠ b ∧ g.DerivesFrom d b := by
  have hpairs : (front ++ b :: back).Pairwise g.DerivesFrom := by
    rw [← hclasses]
    have : Trans g.DerivesFrom g.DerivesFrom g.DerivesFrom := ⟨Relation.ReflTransGen.trans⟩
    exact (h.chain.imp fun _ _ hbase => .single hbase).pairwise
  have hnodup := nodup_recursiveBases g c
  obtain ⟨-, hbehind, hfront⟩ := List.pairwise_append.mp hpairs
  rw [hclasses] at hd hnodup
  constructor
  · intro hmem
    refine ⟨?_, hfront d hmem b List.mem_cons_self⟩
    rintro rfl
    exact List.disjoint_of_nodup_append hnodup hmem List.mem_cons_self
  · rintro ⟨hne, hderives⟩
    rcases List.mem_append.mp hd with hd | hd
    · exact hd
    -- a class that stands behind is a base, and would make a circle
    have hback := (List.mem_cons.mp hd).resolve_left hne
    obtain heq | ⟨x, hx, hxd⟩ := ((List.pairwise_cons.mp hbehind).1 d hback).cases_head
    · exact absurd heq.symm hne
    · refine absurd (hxd.trans hderives) (h.acyclic b ?_ x hx)
      rw [hclasses]
      exact List.mem_append_right front List.mem_cons_self

/-- **In a line, a class is abstract if no path implements some pure virtual function.** -/
theorem IsLine.isAbstract_iff (h : g.IsLine c) : g.isAbstract c ↔
    ∃ b f, g.DerivesFrom c b ∧ f ∈ g.pureVirtuals b ∧ ¬ g.ImplementedAlong c b f := by
  rw [isAbstract_iff_exists_mem]
  constructor
  · rintro ⟨x, hx⟩
    obtain ⟨front, b, back, hclasses, hpure, hfront⟩ := nearest_of_unimplemented hx
    refine ⟨b, x, derivesFrom_iff.mpr ?_, hpure, ?_⟩
    · rw [hclasses]
      exact List.mem_append_right front List.mem_cons_self
    · rintro ⟨d, hd, hne, hderives, himplements⟩
      have hmem := (h.mem_front_iff hclasses (derivesFrom_iff.mp hd)).mpr ⟨hne, hderives⟩
      exact hfront d hmem (declares_of_implements himplements)
  · rintro ⟨b, f, hb, hf, hnot⟩
    obtain ⟨front, back, hclasses⟩ := List.append_of_mem (derivesFrom_iff.mp hb)
    have hfront : ∀ a ∈ front, ¬ g.implements a f := by
      intro a ha himplements
      have hmem : a ∈ c :: g.recursiveBases c := hclasses ▸ List.mem_append_left _ ha
      obtain ⟨hne, hderives⟩ := (h.mem_front_iff hclasses hmem).mp ha
      exact hnot ⟨a, derivesFrom_iff.mpr hmem, hne, hderives, himplements⟩
    obtain ⟨x, hx, -⟩ := exists_mem_unimplementedPureVirtuals hclasses hf hfront
    exact ⟨x, hx⟩

/-! ### Paths -/

/-- **Paths decide what is left exactly if the nearest classes follow them.**  In any case the
nearest class that declares the signature decides, among all that the class derives from, and a
class is abstract if it leaves anything.  In a line that is what the paths say. -/
theorem pathsDecide_iff (g : DeclGraph) (c : DeclId) :
    ((c :: g.recursiveBases c).Nodup ∧ ∀ b, b ∈ c :: g.recursiveBases c ↔ g.DerivesFrom c b) ∧
      (∀ f, g.Leaves c f ↔ g.NearestIsPure c f) ∧
      (g.isAbstract c ↔ ∃ b f, g.DerivesFrom c b ∧ f ∈ g.pureVirtuals b ∧ g.NearestIsPure c f) ∧
      (g.PathsDecide c ↔ g.NearestFollowsPaths c) ∧
      (g.IsLine c → (g.isAbstract c ↔
        ∃ b f, g.DerivesFrom c b ∧ f ∈ g.pureVirtuals b ∧ ¬ g.ImplementedAlong c b f)) := by
  refine ⟨⟨nodup_recursiveBases g c, fun b => derivesFrom_iff.symm⟩, fun f => leaves_iff,
    by simp only [isAbstract_iff, leaves_iff], ?_, IsLine.isAbstract_iff⟩
  constructor
  · intro h
    refine ⟨fun b f hb hf hpure => ?_, fun b f hb hf hpure => ?_⟩
    · exact (h.leaves b f hb hf).mp (leaves_iff.mpr hpure)
    · by_contra hnot
      exact hpure (leaves_iff.mp ((h.leaves b f hb hf).mpr hnot))
  · intro h
    -- the part about abstract classes follows from the one about single functions
    have hleaves : ∀ b f, g.DerivesFrom c b → f ∈ g.pureVirtuals b →
        (g.Leaves c f ↔ ¬ g.ImplementedAlong c b f) := by
      intro b f hb hf
      rw [leaves_iff]
      exact ⟨h.unimplemented b f hb hf, not_imp_comm.mp (h.implemented b f hb hf)⟩
    refine ⟨hleaves, ?_⟩
    rw [isAbstract_iff]
    exact exists_congr fun b => exists_congr fun f =>
      and_congr_right fun hb => and_congr_right fun hf => hleaves b f hb hf

/-- A class with two pure virtual functions, an heir that implements one of them, and an heir of
that one. -/
def heirs : DeclGraph :=
  ⟨#[{ name := "::", kind := .ns [1, 4, 6] },
    { name := "Base", kind := .cls { members := [2, 3] }, parent := some DeclGraph.root },
    { name := "run", parent := some 1, kind := .callable {
        kind := .memberFunction, virtuality := .pure } },
    { name := "stop", parent := some 1, kind := .callable {
        kind := .memberFunction, virtuality := .pure } },
    { name := "Mid", kind := .cls { bases := [{ base := 1 }], members := [5] },
      parent := some DeclGraph.root },
    { name := "run", parent := some 4, kind := .callable {
        kind := .memberFunction, virtuality := .overridable } },
    { name := "Leaf", kind := .cls { bases := [{ base := 4 }] }, parent := some DeclGraph.root }]⟩

/-- The last class is abstract, since no class on the path implements the other function. -/
theorem pathsDecide_iff_heirs : heirs.IsLine 6 ∧ heirs.isAbstract 6 ∧ ¬ heirs.NearestIsPure 6 2 ∧
    ∃ b f, heirs.DerivesFrom 6 b ∧ f ∈ heirs.pureVirtuals b ∧ ¬ heirs.ImplementedAlong 6 b f := by
  have hline : heirs.IsLine 6 := ⟨by decide +kernel, by decide +kernel⟩
  have habstract : heirs.isAbstract 6 := by decide +kernel
  obtain ⟨-, hleaves, -, -, hpaths⟩ := pathsDecide_iff heirs 6
  refine ⟨hline, habstract, fun hnearest => ?_, (hpaths hline).mp habstract⟩
  obtain ⟨x, hx, hsame⟩ := (hleaves 2).mpr hnearest
  have hleft : ∀ x ∈ heirs.unimplementedPureVirtuals 6, ¬ heirs.sameSignature x 2 := by
    decide +kernel
  exact hleft x hx hsame

/-! ### An unrelated implementation -/

/-- Two classes without bases, of which the first implements a function that the second declares
pure virtual, and an heir of both, with the given order of the two. -/
def siblings (bases : List DeclId) : DeclGraph :=
  ⟨#[{ name := "::", kind := .ns [1, 3, 5] },
    { name := "Engine", kind := .cls { members := [2] }, parent := some DeclGraph.root },
    { name := "run", parent := some 1, kind := .callable {
        kind := .memberFunction, virtuality := .overridable } },
    { name := "Task", kind := .cls { members := [4] }, parent := some DeclGraph.root },
    { name := "run", parent := some 3, kind := .callable {
        kind := .memberFunction, virtuality := .pure } },
    { name := "Leaf", kind := .cls { bases := bases.map ({ base := · }) },
      parent := some DeclGraph.root }]⟩

/-- No path implements the pure virtual function, but the heir is not abstract, because the class
that it has first declares another function of the signature.  With the two in the other order it is
abstract. -/
theorem siblings_not_pathsDecide :
    (siblings [1, 3]).validate = .ok () ∧ (siblings [1, 3]).DerivesFrom 5 3 ∧
      4 ∈ (siblings [1, 3]).pureVirtuals 3 ∧ ¬ (siblings [1, 3]).ImplementedAlong 5 3 4 ∧
      (siblings [1, 3]).isAbstract 5 = false ∧ ¬ (siblings [1, 3]).PathsDecide 5 ∧
      (siblings [3, 1]).isAbstract 5 = true := by
  have hderives : (siblings [1, 3]).DerivesFrom 5 3 := by decide +kernel
  have hpure : 4 ∈ (siblings [1, 3]).pureVirtuals 3 := by decide +kernel
  have hpath : ¬ (siblings [1, 3]).ImplementedAlong 5 3 4 := by decide +kernel
  have habstract : (siblings [1, 3]).isAbstract 5 = false := by decide +kernel
  refine ⟨by decide +kernel, hderives, hpure, hpath, habstract, fun h => ?_, by decide +kernel⟩
  exact absurd (h.isAbstract.mpr ⟨3, 4, hderives, hpure, hpath⟩) (by rw [habstract]; decide)

end Bindery.DeclGraph
