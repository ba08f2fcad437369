import Bindery.Proofs.Binding.SiblingOrder
import Bindery.Proofs.Generation.Run
import Bindery.Proofs.Generation.Verdicts

/-!
# The order of classes in the text

A need between two classes is respected by the text of a module if it is noticed in the order of
the siblings that are, or contain, the two.

## Main definitions

* `CodeTree.Shows` — a node of the text registers a class.
* `Generation.nestedNeed` — a class with a need that is not noticed.

## Main results

* `Generation.finish_bound` — a finished module binds its candidates.
* `Generation.finish_shows_before` — **the text respects all needs that are noticed.**
* `Generation.finish_shows_behind` — it need not respect the others.
-/

namespace Bindery

open CodeTree

/-! ### Finished modules -/

/-- The node stands in the text and registers the class. -/
def CodeTree.Shows (t : CodeTree) (q : NodeId) (cls : DeclId) : Prop :=
  q ∈ t.descendants root ∧ (t.kind? q).any (· matches .cls _) ∧ t.decl? q = some cls

instance (t : CodeTree) (q : NodeId) (cls : DeclId) : Decidable (t.Shows q cls) :=
  inferInstanceAs (Decidable (_ ∧ _ ∧ _))

theorem CodeTree.shows_iff {t : CodeTree} {q : NodeId} {cls : DeclId} : t.Shows q cls ↔
    q ∈ t.descendants root ∧ (∃ r, t.kind? q = some (.cls r)) ∧ t.decl? q = some cls := by
  unfold Shows
  refine and_congr_right fun _ => and_congr_left fun _ => ?_
  cases hk : t.kind? q with
  | none => simp
  | some kind => cases kind <;> simp

theorem CodeTree.Shows.part {t : CodeTree} {q : NodeId} {cls : DeclId} (h : t.Shows q cls) :
    t.part? q = some (.cls cls) := by
  obtain ⟨-, ⟨r, hr⟩, hdecl⟩ := shows_iff.mp h
  unfold CodeTree.part?
  rw [hr, hdecl]
  rfl

namespace Generation

variable {g : DeclGraph} {options : ModuleOptions} {rules : List PolicyRule} {s : Generation}
  {t : CodeTree} {a b : NodeId} {c d : DeclId}

/-- What stands in the text of a finished module has been put in order and bound. -/
theorem Finds.bound_tree {c : Candidates} {o : EmissionOrder} {binder : Binder}
    (h : s.Finds g options rules c o binder) (hg : g.Scoped) : ∃ body front rest,
      (s.setup g options rules).Bound s.candidates binder.tree body front rest := by
  obtain ⟨body, front, rest, hlaid⟩ := BindingSetup.bind_laid h.bound
  rw [h.candidates]
  exact ⟨body, front, rest, hg, fun m hm => DeclGraph.reached_of_mem_candidates hg h.offered hm, o,
    h.ordered, hlaid⟩

/-- A finished module binds its candidates. -/
theorem finish_bound (hvalid : g.validate = .ok ()) (hfinish : finish g options rules = .ok s)
    (htree : s.tree? = some t) : ∃ body front rest,
      (s.setup g options rules).Bound s.candidates t body front rest := by
  obtain ⟨c, o, binder, hfinds⟩ := finish_ok hfinish
  obtain rfl := Option.some.inj (htree.symm.trans hfinds.tree)
  exact hfinds.bound_tree (DeclGraph.scoped_of_validate hvalid)

/-- **Needs between classes in the text.**  Let one class that is not of the standard library need
another, neither registered within the other, and let the needs between siblings have no cycle.  If
the need is noticed, the class needed is registered before the other.  In any case the order of
the two is the order of the siblings that are, or contain, them, unless the class needed is of the
standard library as well. -/
theorem finish_shows_before (hvalid : g.validate = .ok ())
    (hfinish : finish g options rules = .ok s) (htree : s.tree? = some t)
    (hacyclic : ∀ x, ¬ Relation.TransGen g.Lifted x x) (ha : t.Shows a c) (hb : t.Shows b d)
    (hab : a ∉ b :: t.ancestors b) (hba : b ∉ a :: t.ancestors a) (hneeds : g.Needs c d)
    (hc : ¬ g.isStd c) :
    (g.Noticed c d → Before (t.descendants root) b a) ∧
    (¬ g.isStd d → ∃ classes x y,
      ({ graph := g, options, verdicts := s.verdicts, rules } : BindingSetup).Level s.candidates
        classes ∧
      x ∈ classes ∧ y ∈ classes ∧ x ≠ y ∧ x ∈ c :: g.enclosing c ∧ y ∈ d :: g.enclosing d ∧
      (Before (t.descendants root) b a ↔ Before (g.sortClasses classes).declarations y x)) := by
  obtain ⟨body, front, rest, hbound⟩ := finish_bound hvalid hfinish htree
  obtain ⟨o, -, hlaid⟩ := hbound.laid
  -- a class that is not of the standard library is registered as no container
  have hfront : ∀ {q : NodeId} {e : DeclId}, t.Shows q e → ¬ g.isStd e → q ∉ front := by
    intro q e hq he hmem
    obtain ⟨⟨e', hpart, hstd⟩, -⟩ := hlaid.containers q hmem
    rw [hq.part] at hpart
    cases hpart
    exact he hstd
  have haf := hfront ha hc
  constructor
  · intro hnoticed
    by_cases hbf : b ∈ front
    · exact hbound.container_precedes ha.1 hb.1 ha.part hb.part hab hba haf hbf
    · obtain ⟨classes, x, y, lc, ld, -, hside, hlc, hld, hx, hy, hne, hxc, hyd, hiff⟩ :=
        hbound.precedes_iff ha.1 hb.1 ha.part hb.part hab hba haf hbf
      have hdepends : g.DependsOn classes x y := DeclGraph.dependsOn_of_noticed hbound.scopes hside
        hlc hld hx hy hne hxc hyd hneeds hnoticed
      have hnoedges : (g.sortClasses classes).backEdges = [] := by
        rw [DeclGraph.sortClasses_backEdges_eq_nil_iff]
        intro e hcycle
        exact hacyclic e (Relation.TransGen.mono (fun _ _ => DeclGraph.lifted_of_dependsOn hside)
          _ _ hcycle)
      refine hiff.mpr ((DeclGraph.sortClasses_behind hdepends).resolve_right ?_)
      rw [hnoedges]
      exact List.not_mem_nil
  · intro hd
    obtain ⟨classes, x, y, lc, ld, hlevel, -, hlc, hld, hx, hy, hne, hxc, hyd, hiff⟩ :=
      hbound.precedes_iff ha.1 hb.1 ha.part hb.part hab hba haf (hfront hb hd)
    refine ⟨classes, x, y, hlevel, hx, hy, hne, ?_, ?_, hiff⟩
    · rw [hlc.enclosing_eq hbound.scopes]
      exact hxc
    · rw [hld.enclosing_eq hbound.scopes]
      exact hyd

/-! ### A need that is not noticed -/

/-- A class needs one class as its base, and another as the base of a class nested in it. -/
def nestedNeed : DeclGraph :=
  ⟨#[{ name := "::", kind := .ns [1, 3, 4] },
    { name := "A", kind := .cls { bases := [{ base := 4 }], members := [2] },
      parent := some DeclGraph.root },
    { name := "I", kind := .cls { bases := [{ base := 3 }] }, parent := some 1 },
    { name := "B", kind := .cls {}, parent := some DeclGraph.root },
    { name := "C", kind := .cls {}, parent := some DeclGraph.root }]⟩

/-- The stages for the graph, with the order of the candidates put in. -/
def nestedNeedRun : Except GenerationError Unit × Generation :=
  (do
    prepare
    modify fun s => { s with order? := some ⟨[4, 1, 3], []⟩ }.report []
    create PolicyRule.chain
    diagnose Check.all : Generating Unit).run.run { graph := nestedNeed, options := {} }

/-- The tree of the module for the graph. -/
def nestedNeedTree : CodeTree := (nestedNeedRun.2.tree?).getD {}

theorem finish_nestedNeed : finish nestedNeed {} = .ok nestedNeedRun.2 := by
  have hok : nestedNeedRun.1 = .ok () := by decide +kernel
  have hcandidates : (nestedNeed.candidates {}).toOption.map (·.declarations) = some [1, 3, 4] := by
    decide +kernel
  -- the candidates are sorted by name already, so that the order is that of the visits
  have hsorted : [1, 3, 4].mergeSort nestedNeed.nameLe = [1, 3, 4] :=
    List.mergeSort_of_pairwise (by decide +kernel)
  have horder : nestedNeed.order [1, 3, 4] = .ok ⟨[4, 1, 3], []⟩ := by
    rw [DeclGraph.order_of_classes (by decide +kernel)]
    unfold DeclGraph.sortClasses
    rw [hsorted]
    exact congrArg Except.ok (by decide +kernel)
  have hrun : nestedNeedRun = (.ok (), nestedNeedRun.2) := Prod.ext hok rfl
  obtain ⟨_, s₁, hprepare, hrest⟩ := Generating.run_bind_eq_ok.mp hrun
  obtain ⟨_, s₂, hmodify, hrest⟩ := Generating.run_bind_eq_ok.mp hrest
  obtain ⟨_, s₃, hcreate, hdiagnose⟩ := Generating.run_bind_eq_ok.mp hrest
  refine finish_eq_ok.mpr ⟨s₁, s₂, s₃, hprepare, ?_, hcreate, hdiagnose⟩
  obtain ⟨found, hfound, rfl⟩ := prepare_eq_ok.mp hprepare
  cases hmodify
  refine order_eq_ok.mpr ⟨_, ?_, rfl⟩
  have hdeclarations : found.declarations = [1, 3, 4] := by
    have hfound : nestedNeed.candidates {} = .ok found := hfound
    rw [hfound] at hcandidates
    exact Option.some.inj hcandidates
  show nestedNeed.order found.declarations = _
  rw [hdeclarations, horder]

theorem tree?_nestedNeedRun : nestedNeedRun.2.tree? = some nestedNeedTree := by
  decide +kernel

/-- Needs between siblings lead from the first two classes to the other two. -/
theorem lifted_nestedNeed {x y : DeclId} (h : nestedNeed.Lifted x y) :
    x ∈ [1, 2] ∧ y ∈ [3, 4] := by
  have hpairs : ∀ a ∈ nestedNeed.ids,
      ∀ b ∈ nestedNeed.bases a ++ nestedNeed.defaultArgumentClasses a,
      (a, b) ∈ [(1, 4), (2, 3)] := by
    decide +kernel
  have hleft : ∀ a ∈ [1, 2], ∀ x ∈ a :: nestedNeed.enclosing a, nestedNeed.isClass x →
      x ∈ [1, 2] := by
    decide +kernel
  have hright : ∀ b ∈ [3, 4], ∀ y ∈ b :: nestedNeed.enclosing b, nestedNeed.isClass y →
      y ∈ [3, 4] := by
    decide +kernel
  obtain ⟨a, b, ⟨ha, hneeds⟩, hx, hy⟩ := h.needs
  have hab := hpairs a (List.mem_range.mpr (DeclGraph.lt_size_of_isClass ha)) b
    (List.mem_append.mpr hneeds)
  have hends : a ∈ [1, 2] ∧ b ∈ [3, 4] := by
    simp only [List.mem_cons, Prod.mk.injEq, List.not_mem_nil, or_false] at hab
    rcases hab with ⟨rfl, rfl⟩ | ⟨rfl, rfl⟩ <;> decide
  exact ⟨hleft a hends.1 x hx h.left, hright b hends.2 y hy h.right⟩

theorem acyclic_nestedNeed (x : DeclId) : ¬ Relation.TransGen nestedNeed.Lifted x x := by
  have hends : ∀ {x y}, Relation.TransGen nestedNeed.Lifted x y → x ∈ [1, 2] ∧ y ∈ [3, 4] := by
    intro x y h
    induction h with
    | single h => exact lifted_nestedNeed h
    | tail _ h ih => exact ⟨ih.1, (lifted_nestedNeed h).2⟩
  have hdisjoint : ∀ x ∈ [1, 2], x ∉ [3, 4] := by decide
  intro h
  exact hdisjoint x (hends h).1 (hends h).2

theorem noticed_nestedNeed : nestedNeed.Noticed 1 4 := by
  refine ⟨.inr (by decide +kernel), fun s hs d hd => ?_⟩
  have hall : ∀ s ∈ 4 :: nestedNeed.enclosing 4, ∀ d ∈ nestedNeed.ids,
      nestedNeed.fullName d = nestedNeed.fullName s → d = s := by
    decide +kernel
  exact hall s hs d (List.mem_range.mpr (DeclGraph.lt_size_of_isClass hd))

/-- The base of the outer class is registered before it. -/
theorem finish_shows_before_nestedNeed :
    finish nestedNeed {} = .ok nestedNeedRun.2 ∧ nestedNeed.Needs 1 4 ∧
      nestedNeed.Noticed 1 4 ∧ Before (nestedNeedTree.descendants root) 4 5 := by
  have hvalid : nestedNeed.validate = .ok () := by decide +kernel
  have hneeds : nestedNeed.Needs 1 4 := by unfold DeclGraph.Needs; decide +kernel
  have hshows : nestedNeedTree.Shows 5 1 ∧ nestedNeedTree.Shows 4 4 := by decide +kernel
  refine ⟨finish_nestedNeed, hneeds, noticed_nestedNeed, ?_⟩
  exact (finish_shows_before hvalid finish_nestedNeed tree?_nestedNeedRun acyclic_nestedNeed
    hshows.1 hshows.2 (by decide +kernel) (by decide +kernel) hneeds (by decide +kernel)).1
    noticed_nestedNeed

/-- The base of the nested class is registered behind it, though the needs have no cycle. -/
theorem finish_shows_behind : ∃ (g : DeclGraph) (s : Generation) (t : CodeTree) (a b : NodeId)
    (c d : DeclId), g.validate = .ok () ∧ finish g {} = .ok s ∧ s.tree? = some t ∧
      (∀ x, ¬ Relation.TransGen g.Lifted x x) ∧ t.Shows a c ∧ t.Shows b d ∧
      a ∉ b :: t.ancestors b ∧ b ∉ a :: t.ancestors a ∧ g.Needs c d ∧
      ¬ Before (t.descendants root) b a := by
  have hneeds : nestedNeed.Needs 2 3 := by unfold DeclGraph.Needs; decide +kernel
  have hbehind : ¬ Before (nestedNeedTree.descendants root) 7 6 := by unfold Before; decide +kernel
  exact ⟨nestedNeed, nestedNeedRun.2, nestedNeedTree, 6, 7, 2, 3, by decide +kernel,
    finish_nestedNeed, tree?_nestedNeedRun, acyclic_nestedNeed, by decide +kernel,
    by decide +kernel, by decide +kernel, by decide +kernel, hneeds, hbehind⟩

end Generation

end Bindery
