import Bindery.Proofs.Analysis.ClassOrder
import Mathlib.Data.Prod.Lex
import Mathlib.Data.String.Basic

/-!
# The order of a set of classes

The order of classes is computed from a list, in which classes may stand in any order and more than
once.  Dependencies only ask which classes are in the list; the classes are visited in an order of
their own, which numbers settle where full names agree; and a class is not visited a second time.
What comes out is therefore a function of the set of classes.

## Main definitions

* `DeclGraph.visited` — the classes of a list in the order of their visits, each once.

## Main results

* `nameLe_iff` — classes are visited in a linear order, whatever names they share.
* `classDependencies_congr` — the dependencies of a class depend on the set of classes.
* `sortClasses_eq_iff` — **two lists of classes have the same order and the same back edges exactly
  if they have the same classes.**
-/

namespace Bindery

/-! ### Visits only add -/

namespace EmissionOrder

variable {dependencies : DeclId → List DeclId} {path : List DeclId} {c d : DeclId}
  {o : EmissionOrder}

theorem mem_foldl_settle {next : DeclId → EmissionOrder → EmissionOrder}
    (hnext : ∀ o e, d ∈ o.declarations → d ∈ (next e o).declarations) :
    ∀ (ds : List DeclId) (o : EmissionOrder), d ∈ o.declarations →
      d ∈ (ds.foldl (settle path c next) o).declarations := by
  intro ds
  induction ds with
  | nil => exact fun _ hd => hd
  | cons e ds ih =>
    intro o hd
    apply ih
    unfold settle
    split
    · exact hd
    · split
      · exact hd
      · exact hnext o e hd

/-- A visit leaves the classes that are in order already. -/
theorem mem_visit_of_mem : ∀ (fuel : Nat) (path : List DeclId) (c : DeclId) (o : EmissionOrder),
    d ∈ o.declarations → d ∈ (visit dependencies fuel path c o).declarations := by
  intro fuel
  induction fuel with
  | zero => exact fun _ _ _ hd => hd
  | succ fuel ih =>
    intro path c o hd
    rw [visit_succ]
    exact List.mem_append_left _ (mem_foldl_settle (fun o e => ih (c :: path) e o) _ o hd)

/-- A visit puts its class in order. -/
theorem mem_visit_self (fuel : Nat) (path : List DeclId) (c : DeclId) (o : EmissionOrder) :
    c ∈ (visit dependencies (fuel + 1) path c o).declarations := by
  rw [visit_succ]
  exact List.mem_append_right _ (List.mem_singleton_self c)

end EmissionOrder

namespace DeclGraph

open EmissionOrder

variable {g : DeclGraph} {classes classes' : List DeclId} {a b c : DeclId}

/-! ### The order of the visits -/

/-- Classes are visited in the order of their full names and numbers. -/
theorem nameLe_iff : g.nameLe a b ↔ toLex (g.fullName a, a) ≤ toLex (g.fullName b, b) := by
  rw [Prod.Lex.toLex_le_toLex]
  simp [nameLe]

/-- The classes of a list in the order of their visits, each once. -/
def visited (g : DeclGraph) (classes : List DeclId) : List DeclId :=
  (classes.mergeSort g.nameLe).eraseDups

theorem mem_visited : c ∈ g.visited classes ↔ c ∈ classes := by
  rw [visited, List.mem_eraseDups, List.mem_mergeSort]

theorem pairwise_visited (g : DeclGraph) (classes : List DeclId) :
    (g.visited classes).Pairwise fun a b => g.nameLe a b := by
  have hsorted : (classes.mergeSort g.nameLe).Pairwise fun a b => g.nameLe a b := by
    refine List.pairwise_mergeSort (fun a b c hab hbc => ?_) (fun a b => ?_) classes
    · exact nameLe_iff.mpr ((nameLe_iff.mp hab).trans (nameLe_iff.mp hbc))
    · rw [Bool.or_eq_true, nameLe_iff, nameLe_iff]
      exact le_total _ _
  exact hsorted.sublist (eraseDups_sublist _)

/-- The order of the visits depends on the set of classes alone. -/
theorem visited_congr (h : ∀ c, c ∈ classes ↔ c ∈ classes') :
    g.visited classes = g.visited classes' := by
  have hperm : (g.visited classes).Perm (g.visited classes') :=
    (List.perm_ext_iff_of_nodup (nodup_eraseDups _) (nodup_eraseDups _)).mpr fun c => by
      rw [← visited, ← visited, mem_visited, mem_visited, h]
  refine hperm.eq_of_pairwise (fun a b _ _ hab hba => ?_) (pairwise_visited g classes)
    (pairwise_visited g classes')
  have hsame := le_antisymm (nameLe_iff.mp hab) (nameLe_iff.mp hba)
  exact (Prod.mk.inj (toLex.injective hsame)).2

/-! ### The visits -/

theorem ownerIn?_congr (h : ∀ c, c ∈ classes ↔ c ∈ classes') (id : DeclId) :
    g.ownerIn? classes id = g.ownerIn? classes' id := by
  unfold ownerIn?
  simp only [h]

/-- The dependencies of a class depend on the set of classes alone. -/
theorem classDependencies_congr (h : ∀ c, c ∈ classes ↔ c ∈ classes') :
    g.classDependencies classes = g.classDependencies classes' := by
  funext c
  unfold classDependencies
  simp only [ownerIn?_congr h]

/-- Classes that have been visited are passed over, so that each may as well stand in the list
once. -/
theorem sortClassesWithin_eq_foldl (g : DeclGraph) (fuel : Nat) (classes : List DeclId) :
    g.sortClassesWithin (fuel + 1) classes = (g.visited classes).foldl (fun o c =>
      if c ∈ o.declarations then o
      else o.visit (g.classDependencies classes) (fuel + 1) [] c) {} := by
  refine foldl_eraseDups (fun o c => c ∈ o.declarations) ?_ ?_ ?_ _ _
  · exact fun o c hc => if_pos hc
  · intro o c
    split
    · assumption
    · exact mem_visit_self fuel [] c o
  · intro o c d hd
    split
    · exact hd
    · exact mem_visit_of_mem (fuel + 1) [] c o hd

/-- **The order of classes depends on the set of classes alone**, and shows it: two lists of classes
have the same order and the same back edges exactly if they have the same classes. -/
theorem sortClasses_eq_iff (g : DeclGraph) (classes classes' : List DeclId) :
    g.sortClasses classes = g.sortClasses classes' ↔ ∀ c, c ∈ classes ↔ c ∈ classes' := by
  constructor
  · intro heq c
    rw [← mem_sortClasses (g := g), heq, mem_sortClasses]
  · intro h
    have hfuel : g.sortClassesWithin (classes.length + classes'.length + 1) classes =
        g.sortClassesWithin (classes.length + classes'.length + 1) classes' := by
      rw [sortClassesWithin_eq_foldl, sortClassesWithin_eq_foldl, visited_congr h,
        classDependencies_congr h]
    rwa [sortClassesWithin_eq (by omega), sortClassesWithin_eq (by omega)] at hfuel

end DeclGraph

end Bindery
