import Bindery.Proofs.Decl.Closed
import Mathlib.Data.List.Nodup
import Mathlib.Data.List.Perm.Subperm
import Mathlib.Logic.Relation

/-!
# All bases of a class

The bases of a class are found by a breadth-first search along base edges.  It finds exactly the
classes that the class derives from, however often an edge is repeated and even if bases go round
in a circle; the number of base edges is enough fuel for that.

## Main definitions

* `DeclGraph.DerivesFrom g d b` — base edges lead from `d` to `b`, or the two are the same.
* `BasesSearch g start done queue found` — what holds in the middle of a search.

## Main results

* `BasesSearch.step` — what one step of the search keeps.
* `basesFrom_search` — the search ends with an empty queue.
* `derivesFrom_iff` — **the search finds exactly what a class derives from**, and
  `nodup_recursiveBases`: each of it once.
-/

namespace Bindery.DeclGraph

variable {g : DeclGraph} {start b c d : DeclId} {found queue done l : List DeclId}

/-- The class `b` is `d` itself, a base of it or a base of one of its bases. -/
def DerivesFrom (g : DeclGraph) : DeclId → DeclId → Prop :=
  Relation.ReflTransGen fun d b => b ∈ g.bases d

/-! ### Bases that are new -/

theorem mem_freshBases : ∀ {l found : List DeclId},
    b ∈ freshBases start found l ↔ b ∈ l ∧ b ≠ start ∧ b ∉ found
  | [], _ => by simp [freshBases]
  | a :: l, found => by
    rw [freshBases]
    split
    · rw [mem_freshBases]
      grind
    · rw [List.mem_cons, mem_freshBases]
      grind

theorem nodup_append_freshBases : ∀ {l found : List DeclId}, (start :: found).Nodup →
    (start :: (found ++ freshBases start found l)).Nodup
  | [], found, h => by
    rw [freshBases, List.append_nil]
    exact h
  | a :: l, found, h => by
    rw [freshBases]
    split
    · exact nodup_append_freshBases h
    · next hnew =>
      rw [List.append_cons]
      refine nodup_append_freshBases ?_
      grind

theorem lt_size_of_bases (h : b ∈ g.bases c) : c < g.size := by
  unfold bases at h
  split at h
  · next d hd => exact lt_size_of_kind? (class?_eq_some_iff.mp hd)
  · cases h

/-- Whatever is a base of something is at the end of a base edge. -/
theorem mem_edges_of_mem_bases (h : b ∈ g.bases c) : b ∈ g.ids.flatMap g.bases :=
  List.mem_flatMap.mpr ⟨c, List.mem_range.mpr (lt_size_of_bases h), h⟩

/-! ### Searching -/

/-- The search has looked at the bases of `done`, and has those of `queue` still to look at: all
that was found, behind the start. -/
structure BasesSearch (g : DeclGraph) (start : DeclId) (done queue found : List DeclId) : Prop where
  order : start :: found = done ++ queue
  nodup : (start :: found).Nodup
  reached : ∀ b ∈ found, g.DerivesFrom start b
  edges : found ⊆ g.ids.flatMap g.bases
  closed : ∀ d ∈ done, ∀ b ∈ g.bases d, b ∈ start :: found

namespace BasesSearch

theorem init (g : DeclGraph) (start : DeclId) : BasesSearch g start [] [start] [] where
  order := rfl
  nodup := List.nodup_singleton start
  reached := nofun
  edges := List.nil_subset _
  closed := nofun

theorem derivesFrom (h : BasesSearch g start done queue found) (hb : b ∈ start :: found) :
    g.DerivesFrom start b := by
  rcases List.mem_cons.mp hb with rfl | hb
  · exact .refl
  · exact h.reached b hb

/-- **The first class of the queue has its new bases put at the end.** -/
theorem step (h : BasesSearch g start done (c :: queue) found) :
    BasesSearch g start (done ++ [c]) (queue ++ freshBases start found (g.bases c))
      (found ++ freshBases start found (g.bases c)) where
  order := by rw [← List.cons_append, h.order, List.append_assoc, List.append_assoc]; rfl
  nodup := nodup_append_freshBases h.nodup
  reached b hb := by
    rcases List.mem_append.mp hb with hb | hb
    · exact h.reached b hb
    · have hc : c ∈ start :: found := by rw [h.order]; simp
      exact (h.derivesFrom hc).tail (mem_freshBases.mp hb).1
  edges := List.append_subset.mpr
    ⟨h.edges, fun b hb => mem_edges_of_mem_bases (mem_freshBases.mp hb).1⟩
  closed d hd b hb := by
    rcases List.mem_append.mp hd with hd | hd
    · exact List.subset_append_left (start :: found) _ (h.closed d hd b hb)
    · -- a base of the class itself is new or was found before
      rw [List.mem_singleton.mp hd] at hb
      by_cases hold : b ∈ start :: found
      · exact List.subset_append_left (start :: found) _ hold
      · rw [List.mem_cons, not_or] at hold
        exact List.mem_append_right (start :: found) (mem_freshBases.mpr ⟨hb, hold⟩)

/-- Every class of the queue but the start was found through an edge of its own. -/
theorem length_le (h : BasesSearch g start done queue found) :
    done.length + queue.length ≤ g.baseEdges + 1 := by
  have hlength : found.length ≤ g.baseEdges :=
    ((List.nodup_cons.mp h.nodup).2.subperm h.edges).length_le
  have horder := congrArg List.length h.order
  rw [List.length_cons, List.length_append] at horder
  omega

end BasesSearch

/-- **The search ends with an empty queue**, if it has as much fuel as there are edges. -/
theorem basesFrom_search : ∀ {fuel : Nat} {done queue found : List DeclId},
    BasesSearch g start done queue found → g.baseEdges + 1 ≤ done.length + fuel →
    BasesSearch g start (start :: g.basesFrom start fuel queue found) []
      (g.basesFrom start fuel queue found)
  | 0, done, queue, found, h, hfuel => by
    -- every edge has led somewhere, so that there is nothing left to look at
    have hqueue : queue = [] := List.length_eq_zero_iff.mp (by have := h.length_le; omega)
    subst hqueue
    rw [basesFrom, h.order, List.append_nil]
    exact h
  | fuel + 1, done, [], found, h, _ => by
    rw [basesFrom, h.order, List.append_nil]
    exact h
  | fuel + 1, done, c :: queue, found, h, hfuel => by
    have hfuel : g.baseEdges + 1 ≤ (done ++ [c]).length + fuel := by
      rw [List.length_append, List.length_singleton]
      omega
    rw [basesFrom]
    exact basesFrom_search h.step hfuel

theorem recursiveBases_search (g : DeclGraph) (c : DeclId) :
    BasesSearch g c (c :: g.recursiveBases c) [] (g.recursiveBases c) :=
  basesFrom_search (.init g c) (by simp)

/-- A class is not among its bases, and each of them is found once. -/
theorem nodup_recursiveBases (g : DeclGraph) (c : DeclId) : (c :: g.recursiveBases c).Nodup :=
  (recursiveBases_search g c).nodup

/-- **A class and its bases are what the class derives from.** -/
theorem derivesFrom_iff : g.DerivesFrom c b ↔ b ∈ c :: g.recursiveBases c := by
  have hsearch := recursiveBases_search g c
  refine ⟨fun h => ?_, hsearch.derivesFrom⟩
  -- with an empty queue, whatever was found has had its bases looked at
  induction h with
  | refl => exact List.mem_cons_self
  | tail _ hbase ih => exact hsearch.closed _ ih _ hbase

instance (g : DeclGraph) (d b : DeclId) : Decidable (g.DerivesFrom d b) :=
  decidable_of_iff _ derivesFrom_iff.symm

end Bindery.DeclGraph
