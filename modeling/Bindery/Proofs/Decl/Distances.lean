import Bindery.Proofs.Decl.Bases
import Mathlib.Order.Lattice.Nat

/-!
# How far away bases are

The distance of a base from a class is the least number of base edges that lead to it.  The queue of
the search is sorted by distance and never holds classes of more than two distances, so that
everything nearer than the class in front has had its bases looked at.  A base that is new then
cannot be nearer than one edge behind the class that it is found through, and the bases come out in
the order of their distances.

## Main definitions

* `DeclGraph.DerivesBy g c n b` — `n` base edges lead from `c` to `b`.
* `DeclGraph.distance` — the least such number.
* `DeclGraph.Scans g start queue found result` — the search as a loop that counts no rounds.
* `SortedSearch g start done queue found` — what holds of the distances in the middle of a search.

## Main results

* `scans_basesFrom` — the loop ends with what the bounded search finds.
* `SortedSearch.step`, `Scans.sorted` — what one round and a whole loop keep.
* `recursiveBases_sorted` — **all bases of a class, each once and nearest first.**
-/

namespace Bindery.DeclGraph

variable {g : DeclGraph} {start b c d : DeclId} {found queue done result : List DeclId} {n : Nat}

/-! ### Distances -/

/-- A path of `n` base edges leads from `c` to `b`. -/
inductive DerivesBy (g : DeclGraph) (c : DeclId) : Nat → DeclId → Prop
  | self : DerivesBy g c 0 c
  | base {n : Nat} {d b : DeclId} : DerivesBy g c n d → b ∈ g.bases d → DerivesBy g c (n + 1) b

theorem derivesFrom_iff_exists : g.DerivesFrom c b ↔ ∃ n, g.DerivesBy c n b := by
  constructor
  · intro h
    induction h with
    | refl => exact ⟨0, .self⟩
    | tail _ hbase ih =>
      obtain ⟨n, hn⟩ := ih
      exact ⟨n + 1, hn.base hbase⟩
  · rintro ⟨n, hn⟩
    induction hn with
    | self => exact .refl
    | base _ hbase ih => exact ih.tail hbase

/-- The length of the shortest path of base edges from `c` to `b`; 0 if there is none. -/
noncomputable def distance (g : DeclGraph) (c b : DeclId) : Nat := sInf {n | g.DerivesBy c n b}

theorem distance_le (h : g.DerivesBy c n b) : g.distance c b ≤ n := Nat.sInf_le h

theorem derivesBy_distance (h : g.DerivesFrom c b) : g.DerivesBy c (g.distance c b) b :=
  Nat.sInf_mem (derivesFrom_iff_exists.mp h)

/-- A base is at most one edge further away. -/
theorem distance_base_le (hd : g.DerivesFrom c d) (hb : b ∈ g.bases d) :
    g.distance c b ≤ g.distance c d + 1 := distance_le ((derivesBy_distance hd).base hb)

/-- A shortest path to something else than its start has a shortest path before its last edge. -/
theorem exists_nearer (h : g.DerivesFrom c b) (hne : b ≠ c) :
    ∃ d, g.DerivesFrom c d ∧ b ∈ g.bases d ∧ g.distance c b = g.distance c d + 1 := by
  have hpath := derivesBy_distance h
  generalize hn : g.distance c b = n at hpath
  cases hpath with
  | self => exact absurd rfl hne
  | @base n d b hd hb =>
    have hfrom : g.DerivesFrom c d := derivesFrom_iff_exists.mpr ⟨n, hd⟩
    have hshorter := distance_le hd
    have hlonger := distance_base_le hfrom hb
    exact ⟨d, hfrom, hb, by omega⟩

/-! ### Searching -/

/-- The search for bases: while there is a class in the queue, its bases that are new are found and
put at the end of the queue. -/
inductive Scans (g : DeclGraph) (start : DeclId) : List DeclId → List DeclId → List DeclId → Prop
  | empty {found : List DeclId} : Scans g start [] found found
  | visit {c : DeclId} {queue found result : List DeclId} :
    Scans g start (queue ++ freshBases start found (g.bases c))
      (found ++ freshBases start found (g.bases c)) result → Scans g start (c :: queue) found result

/-- **The loop ends with what the bounded search finds**, if there is as much fuel as there are
edges. -/
theorem scans_basesFrom : ∀ {fuel : Nat} {done queue found : List DeclId},
    BasesSearch g start done queue found → g.baseEdges + 1 ≤ done.length + fuel →
    g.Scans start queue found (g.basesFrom start fuel queue found)
  | 0, done, queue, found, h, hfuel => by
    have hqueue : queue = [] := List.length_eq_zero_iff.mp (by have := h.length_le; omega)
    subst hqueue
    exact .empty
  | fuel + 1, done, [], found, _, _ => .empty
  | fuel + 1, done, c :: queue, found, h, hfuel => by
    have hfuel : g.baseEdges + 1 ≤ (done ++ [c]).length + fuel := by
      rw [List.length_append, List.length_singleton]
      omega
    exact .visit (scans_basesFrom h.step hfuel)

/-- What was found is sorted by distance, and goes at most one edge beyond what is in the queue. -/
structure SortedSearch (g : DeclGraph) (start : DeclId) (done queue found : List DeclId) : Prop
    extends BasesSearch g start done queue found where
  sorted : (start :: found).Pairwise (g.distance start · ≤ g.distance start ·)
  near : ∀ c ∈ queue, ∀ b ∈ start :: found, g.distance start b ≤ g.distance start c + 1

namespace SortedSearch

theorem init (g : DeclGraph) (start : DeclId) : SortedSearch g start [] [start] [] where
  toBasesSearch := .init g start
  sorted := List.pairwise_singleton _ start
  near c hc b hb := by
    rw [List.mem_singleton.mp hc, List.mem_singleton.mp hb]
    exact Nat.le_succ _

/-- What is in the queue is not nearer than the class in front. -/
theorem front_le (h : SortedSearch g start done (c :: queue) found) :
    ∀ b ∈ queue, g.distance start c ≤ g.distance start b := by
  have hsorted := h.sorted
  rw [h.order] at hsorted
  exact (List.pairwise_cons.mp (List.pairwise_append.mp hsorted).2.1).1

/-- **What is nearer than the class in front has had its bases looked at.** -/
theorem mem_done (h : SortedSearch g start done (c :: queue) found) :
    ∀ (n : Nat) {b : DeclId}, g.DerivesFrom start b → g.distance start b = n →
      n < g.distance start c → b ∈ done
  | n, b, hb, hn, hlt => by
    -- it was found, as the start or through a class that is nearer still
    have hfound : b ∈ start :: found := by
      by_cases hne : b = start
      · exact hne ▸ List.mem_cons_self
      · obtain ⟨d, hd, hbase, hdist⟩ := exists_nearer hb hne
        have hdone := h.mem_done (g.distance start d) hd rfl (by omega)
        exact h.closed d hdone b hbase
    rw [h.order] at hfound
    rcases List.mem_append.mp hfound with hdone | hqueue
    · exact hdone
    · -- in the queue nothing is nearer than the class in front
      rcases List.mem_cons.mp hqueue with rfl | hqueue
      · omega
      · have hle := h.front_le b hqueue
        omega
  termination_by n => n
  decreasing_by omega

/-- The new bases of the class in front are one edge further away. -/
theorem distance_fresh (h : SortedSearch g start done (c :: queue) found)
    (hb : b ∈ freshBases start found (g.bases c)) :
    g.distance start b = g.distance start c + 1 := by
  obtain ⟨hbase, hne, hnew⟩ := mem_freshBases.mp hb
  have hc : g.DerivesFrom start c := h.derivesFrom (by rw [h.order]; simp)
  refine Nat.le_antisymm (distance_base_le hc hbase) ?_
  by_contra hlt
  -- otherwise a class that has had its bases looked at would have this one
  obtain ⟨d, hd, hbase', hdist⟩ := exists_nearer (hc.tail hbase) hne
  have hdone := h.mem_done (g.distance start d) hd rfl (by omega)
  rcases List.mem_cons.mp (h.closed d hdone b hbase') with heq | hmem
  · exact hne heq
  · exact hnew hmem

/-- **Bases one edge behind the class in front go to the end of a queue of its distance and the
next.** -/
theorem step (h : SortedSearch g start done (c :: queue) found) :
    SortedSearch g start (done ++ [c]) (queue ++ freshBases start found (g.bases c))
      (found ++ freshBases start found (g.bases c)) where
  toBasesSearch := h.toBasesSearch.step
  sorted := by
    rw [← List.cons_append, List.pairwise_append]
    refine ⟨h.sorted, ?_, fun a ha b hb => ?_⟩
    · refine List.pairwise_of_forall_mem_list fun a ha b hb => ?_
      rw [h.distance_fresh ha, h.distance_fresh hb]
    · rw [h.distance_fresh hb]
      exact h.near c List.mem_cons_self a ha
  near q hq b hb := by
    have hqueue : g.distance start c ≤ g.distance start q := by
      rcases List.mem_append.mp hq with hq | hq
      · exact h.front_le q hq
      · rw [h.distance_fresh hq]
        exact Nat.le_succ _
    have hfound : g.distance start b ≤ g.distance start c + 1 := by
      rw [← List.cons_append] at hb
      rcases List.mem_append.mp hb with hb | hb
      · exact h.near c List.mem_cons_self b hb
      · exact (h.distance_fresh hb).le
    omega

end SortedSearch

/-- **The loop keeps what it has found sorted.**  By induction on its rounds. -/
theorem Scans.sorted (hscans : g.Scans start queue found result) :
    ∀ {done : List DeclId}, SortedSearch g start done queue found →
      SortedSearch g start (start :: result) [] result := by
  induction hscans with
  | empty =>
    intro done h
    have horder := h.order
    rw [List.append_nil] at horder
    exact horder ▸ h
  | visit _ ih => exact fun h => ih h.step

/-- **All bases of a class, each once and nearest first.**  The search ends, whatever circles the
base edges form, with everything else that the class derives from, in the order of distances. -/
theorem recursiveBases_sorted (g : DeclGraph) (c : DeclId) :
    g.Scans c [c] [] (g.recursiveBases c) ∧ (g.recursiveBases c).Nodup ∧
      (∀ b, b ∈ g.recursiveBases c ↔ b ≠ c ∧ g.DerivesFrom c b) ∧
      (g.recursiveBases c).Pairwise (g.distance c · ≤ g.distance c ·) := by
  have hscans : g.Scans c [c] [] (g.recursiveBases c) :=
    scans_basesFrom (.init g c) (by simp)
  have hsearch := hscans.sorted (.init g c)
  obtain ⟨hself, hnodup⟩ := List.nodup_cons.mp hsearch.nodup
  refine ⟨hscans, hnodup, fun b => ?_, (List.pairwise_cons.mp hsearch.sorted).2⟩
  rw [derivesFrom_iff, List.mem_cons]
  constructor
  · exact fun hb => ⟨fun heq => hself (heq ▸ hb), .inr hb⟩
  · exact fun ⟨hne, hb⟩ => hb.resolve_left hne

/-- A class with two bases that have a base in common, which in turn has the class for its base and
holds a reference.  About one of the two bases the user has decided that it may be copied. -/
def roundDiamond : DeclGraph :=
  ⟨#[{ name := "::", kind := .ns [1, 2, 3, 4] },
    { name := "A", kind := .cls { bases := [{ base := 2 }, { base := 3 }] },
      parent := some DeclGraph.root },
    { name := "B", kind := .cls { bases := [{ base := 4 }] }, parent := some DeclGraph.root,
      config := { noncopyable := some false } },
    { name := "C", kind := .cls { bases := [{ base := 4 }] }, parent := some DeclGraph.root },
    { name := "D", kind := .cls { bases := [{ base := 1 }], members := [5] },
      parent := some DeclGraph.root },
    { name := "i", kind := .variable { type := .reference (.fundamental .int) },
      parent := some 4 }]⟩

/-- The base that two paths lead to is listed once, behind both. -/
example : roundDiamond.recursiveBases 1 = [2, 3, 4] := by decide +kernel

end Bindery.DeclGraph
