import Bindery.Proofs.Analysis.DepthFirst
import Bindery.Proofs.Decl.Scopes
import Bindery.Proofs.NameMap
import Mathlib.Data.List.Dedup

/-!
# The order of classes

The order of classes is a depth-first order along dependencies.  It holds every class once; each
dependency is either in front of its class or reported as a back edge, and a back edge is reported
only where the dependencies form a cycle.

## Main definitions

* `DeclGraph.DependsOn g classes` — the dependencies among the classes of a list.
* `DeclGraph.sortClassesWithin` — the order of classes, with a bound on the depth of the search.

## Main results

* `sortClassesWithin_eq` — the bound is not felt.
* `sortClasses_visiting` — what depth-first visits of all classes leave behind.
* `sortClasses_topological` — **the order is topological up to the back edges it reports.**
-/

namespace Bindery.DeclGraph

open EmissionOrder

variable {g : DeclGraph} {classes : List DeclId}

/-! ### Dependencies -/

/-- `c` is one of the classes and has to stand behind `d`. -/
def DependsOn (g : DeclGraph) (classes : List DeclId) (c d : DeclId) : Prop :=
  c ∈ classes ∧ d ∈ g.classDependencies classes c

theorem mem_of_ownerIn? {set : List DeclId} {id d : DeclId} (h : g.ownerIn? set id = some d) :
    d ∈ set := by
  simpa using List.find?_some h

theorem mem_of_mem_classDependencies {c d : DeclId} (h : d ∈ g.classDependencies classes c) :
    d ∈ classes ∧ d ≠ c := by
  unfold classDependencies at h
  obtain ⟨p, hp, rfl⟩ := List.mem_map.mp (NameMap.mem_of_mem_values_ofList h)
  obtain ⟨e, he, rfl⟩ := List.mem_map.mp hp
  obtain ⟨a, -, ha⟩ := List.mem_filterMap.mp he
  obtain ⟨hown, hne⟩ := Option.filter_eq_some_iff.mp ha
  exact ⟨mem_of_ownerIn? hown, of_decide_eq_true hne⟩

/-- Dependencies along which a class is reached stay among the classes. -/
theorem transGen_dependsOn {c d : DeclId} (hc : c ∈ classes)
    (h : Relation.TransGen (fun a b => b ∈ g.classDependencies classes a) c d) :
    Relation.TransGen (g.DependsOn classes) c d := by
  induction h using Relation.TransGen.head_induction_on with
  | single h => exact .single ⟨hc, h⟩
  | head h _ ih => exact .head ⟨hc, h⟩ (ih (mem_of_mem_classDependencies h).1)

/-! ### The bound on the depth -/

/-- The order of classes, found by visits that open at most `fuel` classes one inside the other. -/
def sortClassesWithin (g : DeclGraph) (fuel : Nat) (classes : List DeclId) : EmissionOrder :=
  (classes.mergeSort g.nameLe).foldl (fun o c =>
    if c ∈ o.declarations then o
    else o.visit (g.classDependencies classes) fuel [] c) {}

/-- The visits end: a bound that leaves room for all classes is not felt. -/
theorem sortClassesWithin_eq {fuel : Nat} (h : classes.length ≤ fuel) :
    g.sortClassesWithin fuel classes = g.sortClasses classes := by
  unfold sortClassesWithin sortClasses
  apply List.foldl_ext
  intro o c hc
  have hc : c ∈ classes := List.mem_mergeSort.mp hc
  by_cases hmem : c ∈ o.declarations
  · rw [if_pos hmem, if_pos hmem]
  · rw [if_neg hmem, if_neg hmem]
    exact visit_congr (fun c _ d hd => (mem_of_mem_classDependencies hd).1) _ _ _ _ _
      (by simpa using h) (by simp) (List.nodup_singleton c) (by simpa using hc)

/-! ### All classes -/

/-- The visits of some classes, one after the other and each only where it is still missing. -/
private theorem foldl_visit :
    ∀ (todo : List DeclId) (o : EmissionOrder), todo ⊆ classes →
      Visiting (g.classDependencies classes) [] o →
      let o' := todo.foldl (fun o c =>
        if c ∈ o.declarations then o
        else o.visit (g.classDependencies classes) (classes.length + 1) [] c) o
      Visiting (g.classDependencies classes) [] o' ∧ Extends classes o o' ∧
        todo ⊆ o'.declarations := by
  intro todo
  induction todo with
  | nil => exact fun o _ ho => ⟨ho, Extends.refl classes o, List.nil_subset _⟩
  | cons c todo ih =>
    intro o htodo ho
    obtain ⟨hc, htodo⟩ := List.cons_subset.mp htodo
    by_cases hmem : c ∈ o.declarations
    · rw [List.foldl_cons, if_pos hmem]
      obtain ⟨hvisiting, hextends, hsub⟩ := ih o htodo ho
      exact ⟨hvisiting, hextends, List.cons_subset.mpr
        ⟨hextends.declarations.subset hmem, hsub⟩⟩
    · -- no visit is open when that of `c` begins, nor when it has ended
      rw [List.foldl_cons, if_neg hmem]
      have hvisited := visit_visited (fun c _ d hd => mem_of_mem_classDependencies hd)
        (classes.length + 1) [] c o (by simp) (by simpa using hc) (by simp) ho (by simpa using hmem)
      obtain ⟨hvisiting, hextends, hsub⟩ := ih _ htodo hvisited.toVisiting
      exact ⟨hvisiting, hvisited.toExtends.trans hextends, List.cons_subset.mpr
        ⟨hextends.declarations.subset hvisited.mem, hsub⟩⟩

/-- What the visits of all classes leave behind. -/
theorem sortClasses_visiting (g : DeclGraph) (classes : List DeclId) :
    Visiting (g.classDependencies classes) [] (g.sortClasses classes) ∧
      Extends classes {} (g.sortClasses classes) ∧
      classes ⊆ (g.sortClasses classes).declarations := by
  have hinit : Visiting (g.classDependencies classes) [] {} :=
    ⟨List.nodup_nil, fun _ h => absurd h List.not_mem_nil, fun _ h => absurd h List.not_mem_nil⟩
  obtain ⟨hvisiting, hextends, hsub⟩ := foldl_visit (classes.mergeSort g.nameLe) {}
    (fun _ => List.mem_mergeSort.mp) hinit
  exact ⟨hvisiting, hextends, fun c hc => hsub (List.mem_mergeSort.mpr hc)⟩

theorem sortClasses_nodup (g : DeclGraph) (classes : List DeclId) :
    (g.sortClasses classes).declarations.Nodup := by
  simpa using (sortClasses_visiting g classes).1.nodup

theorem mem_sortClasses {c : DeclId} :
    c ∈ (g.sortClasses classes).declarations ↔ c ∈ classes := by
  obtain ⟨-, hextends, hsub⟩ := sortClasses_visiting g classes
  exact ⟨fun hc => (hextends.new c hc).resolve_left List.not_mem_nil, fun hc => hsub hc⟩

/-- Each class stands behind what it depends on, or the dependency is a back edge. -/
theorem sortClasses_behind {c d : DeclId} (h : g.DependsOn classes c d) :
    Before (g.sortClasses classes).declarations d c ∨ (c, d) ∈ (g.sortClasses classes).backEdges :=
  (sortClasses_visiting g classes).1.behind c (mem_sortClasses.mpr h.1) d h.2

/-- A back edge is a dependency on a class behind, and closes a cycle of dependencies. -/
theorem sortClasses_closes {c d : DeclId} (h : (c, d) ∈ (g.sortClasses classes).backEdges) :
    g.DependsOn classes c d ∧ Relation.TransGen (g.DependsOn classes) d c ∧
      Before (g.sortClasses classes).declarations c d := by
  obtain ⟨hvisiting, hextends, -⟩ := sortClasses_visiting g classes
  obtain ⟨hdep, hreach, hbefore⟩ := hvisiting.closes (c, d) h
  have hc : c ∈ classes := (hextends.newEdges (c, d) h).resolve_left List.not_mem_nil
  exact ⟨⟨hc, hdep⟩, transGen_dependsOn (mem_of_mem_classDependencies hdep).1 hreach,
    by simpa using hbefore⟩

/-- Along dependencies without back edges the place in the order goes down. -/
theorem idxOf_lt_of_transGen (hback : (g.sortClasses classes).backEdges = []) {c d : DeclId}
    (h : Relation.TransGen (g.DependsOn classes) c d) :
    (g.sortClasses classes).declarations.idxOf d < (g.sortClasses classes).declarations.idxOf c := by
  have hstep : ∀ {a b}, g.DependsOn classes a b →
      (g.sortClasses classes).declarations.idxOf b <
        (g.sortClasses classes).declarations.idxOf a := by
    intro a b hab
    have hbefore := (sortClasses_behind hab).resolve_right (by simp [hback])
    exact hbefore.idxOf_lt (sortClasses_nodup g classes)
  induction h with
  | single hab => exact hstep hab
  | tail _ hab ih => exact (hstep hab).trans ih

/-- Back edges are reported exactly where the dependencies have a cycle. -/
theorem sortClasses_backEdges_eq_nil_iff :
    (g.sortClasses classes).backEdges = [] ↔
      ∀ c, ¬ Relation.TransGen (g.DependsOn classes) c c := by
  constructor
  · intro hback c hcycle
    exact Nat.lt_irrefl _ (idxOf_lt_of_transGen hback hcycle)
  · intro hacyclic
    rw [List.eq_nil_iff_forall_not_mem]
    rintro ⟨c, d⟩ hedge
    obtain ⟨hdep, hreach, -⟩ := sortClasses_closes hedge
    exact hacyclic c (.head hdep hreach)

end Bindery.DeclGraph
