import Bindery.Decl.Graph
import Bindery.Proofs.ParentChain
import Mathlib.Logic.Relation

/-!
# Walks along scopes

Where following parents ends, it visits no declaration twice, so a walk along parents is at most
as long as the graph has declarations, and a walk along members at most that deep.  The bounds on
both walks are therefore never felt.

## Main definitions

* `DeclGraph.Rooted` — all parent chains end at the global namespace.
* `DeclGraph.MembersAgree` — members name the scope that lists them as their parent.

## Main results

* `enclosingWithin_eq` — a bound on the walk along parents that is at least the size is not felt.
* `descendantsWithin_eq` — nor is such a bound on the walk along members.
-/

namespace Bindery.DeclGraph

variable {g : DeclGraph}

theorem decl_eq_ok {id : DeclId} {d : Declaration} : g.decl id = .ok d ↔ g.get? id = some d := by
  unfold decl
  cases g.get? id with
  | none => exact ⟨fun h => (nomatch h), fun h => (nomatch h)⟩
  | some d' => rw [Except.ok.injEq, Option.some.injEq]

theorem callable?_eq_some_iff {id : DeclId} {c : Callable} :
    g.callable? id = some c ↔ g.kind? id = some (.callable c) := by
  unfold callable?
  constructor
  · intro h
    split at h
    · next hkind => rw [hkind, Option.some.inj h]
    · cases h
  · intro h
    rw [h]

theorem isClass_iff {id : DeclId} : g.isClass id ↔ ∃ c, g.kind? id = some (.cls c) := by
  unfold isClass class?
  constructor
  · intro h
    split at h
    · next c hkind => exact ⟨c, hkind⟩
    · cases h
  · rintro ⟨c, h⟩
    rw [h]
    rfl

/-- What is declared as something else is no class. -/
theorem not_isClass_of_kind? {id : DeclId} {k : DeclKind} (h : g.kind? id = some k)
    (hk : ∀ c, k ≠ .cls c) : ¬ g.isClass id := by
  rw [isClass_iff]
  rintro ⟨c, hc⟩
  exact hk c (Option.some.inj (h.symm.trans hc))

theorem lt_size_of_parent? {id p : DeclId} (h : g.parent? id = some p) : id < g.size := by
  unfold parent? get? at h
  cases hd : g.decls[id]? with
  | none => simp [hd] at h
  | some d => exact (Array.getElem?_eq_some_iff.mp hd).1

theorem lt_size_of_mem_members {id m : DeclId} (h : m ∈ g.members id) : id < g.size := by
  unfold members kind? get? at h
  cases hd : g.decls[id]? with
  | none => simp [hd] at h
  | some d => exact (Array.getElem?_eq_some_iff.mp hd).1

theorem lt_size_of_isClass {id : DeclId} (h : g.isClass id) : id < g.size := by
  unfold isClass class? kind? get? at h
  cases hd : g.decls[id]? with
  | none => simp [hd] at h
  | some d => exact (Array.getElem?_eq_some_iff.mp hd).1

theorem enclosingWithin_of_climbs : ∀ {l : List DeclId} {id : DeclId}, Climbs g.parent? id l →
    ∀ fuel, g.enclosingWithin fuel id = l.take fuel
  | _, _, _, 0 => by simp [enclosingWithin]
  | [], _, h, fuel + 1 => by
    have h : g.parent? _ = none := h
    simp [enclosingWithin, h]
  | p :: l, _, h, fuel + 1 => by
    rw [enclosingWithin, h.1, List.take_succ_cons, ← enclosingWithin_of_climbs h.2 fuel]

/-! ### Graphs whose chains end -/

/-- The parent chains of all declarations end at the global namespace. -/
structure Rooted (g : DeclGraph) : Prop where
  root : g.parent? DeclGraph.root = none
  chain : ∀ id < g.size, Relation.ReflTransGen (fun a b => g.parent? a = some b) id DeclGraph.root

/-- Members name the scope that lists them as their parent. -/
def MembersAgree (g : DeclGraph) : Prop :=
  ∀ id, ∀ m ∈ g.members id, g.parent? m = some id

theorem Rooted.climbs (hg : g.Rooted) {id : DeclId} (hid : id < g.size) :
    ∃ l, Climbs g.parent? id l ∧ ∀ x ∈ l, x < g.size := by
  have hpos : DeclGraph.root < g.size := Nat.lt_of_le_of_lt (Nat.zero_le _) hid
  induction hg.chain id hid using Relation.ReflTransGen.head_induction_on with
  | refl => exact ⟨[], hg.root, by simp⟩
  | head hparent hrest ih =>
    next a p =>
    have hp : p < g.size := by
      rcases hrest.cases_head with rfl | ⟨q, hq, -⟩
      · exact hpos
      · exact lt_size_of_parent? hq
    obtain ⟨l, hl, hin⟩ := ih hp
    exact ⟨p :: l, ⟨hparent, hl⟩, List.forall_mem_cons.mpr ⟨hp, hin⟩⟩

theorem descendantsWithin_of_members_eq_nil {id : DeclId} (h : g.members id = []) (fuel : Nat) :
    g.descendantsWithin fuel id = [] := by
  cases fuel <;> simp [descendantsWithin, h]

/-- Two bounds on the walk along members agree where both reach the deepest declarations. -/
theorem descendantsWithin_congr (hm : g.MembersAgree) :
    ∀ (fuel fuel' : Nat) (id : DeclId) (l : List DeclId), Climbs g.parent? id l →
      (∀ x ∈ l, x < g.size) → g.size ≤ fuel + l.length → g.size ≤ fuel' + l.length →
      g.descendantsWithin fuel id = g.descendantsWithin fuel' id := by
  -- below the bound a scope without members stands, since no chain is as long as the graph
  have hnil : ∀ id l fuel, Climbs g.parent? id l → (∀ x ∈ l, x < g.size) → g.size ≤ l.length →
      g.descendantsWithin fuel id = [] := by
    intro id l fuel hl hin hsize
    apply descendantsWithin_of_members_eq_nil
    rw [List.eq_nil_iff_forall_not_mem]
    intro m hmem
    have := hl.length_lt (lt_size_of_mem_members hmem) hin
    omega
  intro fuel
  induction fuel with
  | zero =>
    intro fuel' id l hl hin hsize hsize'
    rw [hnil id l 0 hl hin (by omega), hnil id l fuel' hl hin (by omega)]
  | succ fuel ih =>
    intro fuel' id l hl hin hsize hsize'
    cases fuel' with
    | zero => rw [hnil id l _ hl hin (by omega), hnil id l 0 hl hin (by omega)]
    | succ fuel' =>
      unfold descendantsWithin
      apply List.flatMap_congr
      intro m hmem
      have hid := lt_size_of_mem_members hmem
      rw [ih fuel' m (id :: l) ⟨hm id m hmem, hl⟩ (List.forall_mem_cons.mpr ⟨hid, hin⟩)
        (by rw [List.length_cons]; omega) (by rw [List.length_cons]; omega)]

/-- **A bound on the depth of the walk along members that is at least the size is not felt.** -/
theorem Rooted.descendantsWithin_eq (hg : g.Rooted) (hm : g.MembersAgree) (id : DeclId)
    (extra : Nat) : g.descendantsWithin (g.size + extra) id = g.descendants id := by
  unfold descendants
  rcases Nat.lt_or_ge id g.size with hid | hid
  · obtain ⟨l, hl, hin⟩ := hg.climbs hid
    exact descendantsWithin_congr hm _ _ id l hl hin (by omega) (by omega)
  · have hnone : g.members id = [] := by
      rw [List.eq_nil_iff_forall_not_mem]
      intro m hmem
      exact absurd (lt_size_of_mem_members hmem) (Nat.not_lt.mpr hid)
    rw [descendantsWithin_of_members_eq_nil hnone, descendantsWithin_of_members_eq_nil hnone]

end Bindery.DeclGraph
