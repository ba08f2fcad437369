import Bindery.Proofs.Generation.Registered

/-!
# Classes with wrapper classes

A class gets a wrapper class when there is a reason for one, and not otherwise.  It gets one only,
and its registration names it.

## Main definitions

* `CodeTree.Wraps` — a node is the wrapper class of a class.

## Main results

* `Generation.finish_wraps_iff` — **a registered class has a wrapper class exactly if it needs
  one.**
-/

namespace Bindery

open Binder CodeTree

/-- The node is the wrapper class of the class. -/
def CodeTree.Wraps (t : CodeTree) (n : NodeId) (cls : DeclId) : Prop :=
  t.decl? n = some cls ∧ (t.kind? n).any (· matches .wrapper _)

instance (t : CodeTree) (n : NodeId) (cls : DeclId) : Decidable (t.Wraps n cls) :=
  inferInstanceAs (Decidable (_ ∧ _))

theorem CodeTree.wraps_iff {t : CodeTree} {n : NodeId} {cls : DeclId} : t.Wraps n cls ↔
    t.decl? n = some cls ∧ ∃ k, t.kind? n = some (.wrapper k) := by
  unfold Wraps
  refine and_congr_right fun _ => ?_
  cases hk : t.kind? n with
  | none => simp
  | some kind => cases kind <;> simp

namespace BindingSetup

variable {s : BindingSetup} {ids : List DeclId} {b : Binder} {c : DeclId} {n q : NodeId}

/-- The nodes that wrap a class are the one that is noted. -/
theorem Recorded.wraps_iff (h : s.Recorded ids b) :
    b.tree.Wraps n c ↔ ∃ name, b.wrapper? c = some ⟨n, name⟩ ∧
      b.tree.kind? n = some (.wrapper ⟨name, name, s.graph.fullName c⟩) := by
  rw [CodeTree.wraps_iff]
  constructor
  · rintro ⟨hdecl, k, hk⟩
    obtain ⟨c', hc', hw⟩ := h.wrapper n k hk
    obtain rfl : c = c' := Option.some.inj (hdecl.symm.trans hc')
    exact ⟨k.name, hw, (h.made c _ hw).2.2.2⟩
  · rintro ⟨name, hw, hkind⟩
    exact ⟨(h.made c _ hw).2.2.1, _, hkind⟩

theorem Recorded.wraps_node (h : s.Recorded ids b) {w : WrapperClass} (hw : b.wrapper? c = some w) :
    b.tree.Wraps n c ↔ n = w.node := by
  rw [h.wraps_iff]
  constructor
  · rintro ⟨name, hn, -⟩
    rw [hw] at hn
    cases hn
    rfl
  · rintro rfl
    exact ⟨w.name, hw, (h.made c w hw).2.2.2⟩

end BindingSetup

namespace Generation

variable {g : DeclGraph} {options : ModuleOptions} {rules : List PolicyRule} {s : Generation}
  {t : CodeTree} {q : NodeId} {c : DeclId}

/-- A class that is not of the standard library stands in the text once. -/
theorem Finds.shows_unique {found : Candidates} {o : EmissionOrder} {b : Binder} {n : NodeId}
    (h : s.Finds g options rules found o b) (hg : g.Scoped) (hc : ¬ g.isStd c)
    (hn : b.tree.Shows n c) (hq : b.tree.Shows q c) : n = q := by
  obtain ⟨body, front, rest, hbound⟩ := h.bound_tree hg
  obtain ⟨o, -, hlaid⟩ := hbound.laid
  have hfront : ∀ {q}, b.tree.Shows q c → q ∉ front := by
    intro q hq hmem
    obtain ⟨⟨e, hpart, hstd⟩, -⟩ := hlaid.containers q hmem
    rw [hq.part] at hpart
    cases hpart
    exact hc hstd
  exact hbound.unique hn.1 hq.1 hn.part hq.part (hfront hn) (hfront hq)

/-- **A class has a wrapper class exactly if it needs one.**  Let a class that is not of the
standard library be registered.  If the user puts code into its wrapper class, or a variable is
reached through it, or a function is bound through it, or a function of a base is bound again for
the class, then there is one wrapper class, whose name the registration gives; otherwise there is
none, and the registration gives no name. -/
theorem finish_wraps_iff {r : ClassNode} (hg : g.Scoped) (hfinish : finish g options rules = .ok s)
    (htree : s.tree? = some t) (hr : t.kind? q = some (.cls r)) (hq : t.decl? q = some c)
    (hc : ¬ g.isStd c) :
    ((∃ n, t.Wraps n c) ↔ (s.setup g options rules).NeedsWrapper c) ∧
    ((s.setup g options rules).NeedsWrapper c → ∃ n k, (∀ m, t.Wraps m c ↔ m = n) ∧
      t.kind? n = some (.wrapper k) ∧ r.wrapper = some k.name) ∧
    (¬ (s.setup g options rules).NeedsWrapper c → r.wrapper = none) := by
  obtain ⟨found, o, b, hfinds⟩ := finish_ok hfinish
  obtain rfl := Option.some.inj (htree.symm.trans hfinds.tree)
  have hrecorded := BindingSetup.bind_recorded hfinds.bound
  obtain ⟨c', hc', hdescribed⟩ := hrecorded.shown q r hr
  obtain rfl : c = c' := Option.some.inj (hq.symm.trans hc')
  have hdescribed := hdescribed.resolve_left fun h => hc h.1
  have hone : ∀ m, (c, m) ∈ b.classNodes → m = q := fun m hm =>
    hfinds.shows_unique hg hc (hfinds.shows hm) (hfinds.shows hdescribed.noted)
  have hsettled := hfinds.settled hg hdescribed.noted
  -- the class needs a wrapper class exactly if one is noted
  have hneeds : (s.setup g options rules).NeedsWrapper c ↔ ∃ w, b.wrapper? c = some w :=
    ⟨hsettled.wrapper, fun ⟨w, hw⟩ => (hrecorded.made c w hw).1⟩
  refine ⟨⟨fun ⟨n, hn⟩ => ?_, fun hn => ?_⟩, fun hn => ?_, fun hn => ?_⟩
  · obtain ⟨name, hw, -⟩ := hrecorded.wraps_iff.mp hn
    exact hneeds.mpr ⟨_, hw⟩
  · obtain ⟨w, hw⟩ := hneeds.mp hn
    exact ⟨w.node, (hrecorded.wraps_node hw).mpr rfl⟩
  · obtain ⟨w, hw⟩ := hneeds.mp hn
    refine ⟨w.node, _, fun m => hrecorded.wraps_node hw, (hrecorded.made c w hw).2.2.2, ?_⟩
    rw [hdescribed.wrapper hone, hw]
    rfl
  · rw [hdescribed.wrapper hone, Option.map_eq_none_iff]
    by_contra hne
    exact hn (hneeds.mpr (Option.ne_none_iff_exists'.mp hne))

/-- An abstract class has a wrapper class for its function. -/
theorem finish_wraps_shape : ∃ (s : Generation) (t : CodeTree) (q n : NodeId) (r : ClassNode)
    (k : WrapperNode), finish Samples.shape {} = .ok s ∧ s.tree? = some t ∧
      t.kind? q = some (.cls r) ∧ t.decl? q = some 1 ∧ (∀ m, t.Wraps m 1 ↔ m = n) ∧
      t.kind? n = some (.wrapper k) ∧ r.wrapper = some k.name := by
  obtain ⟨s, hs, hfound⟩ := Except.exists_eq_ok_of_any (x := finish Samples.shape {})
    (p := fun s => s.tree?.any fun t => t.Shows 4 1 ∧ t.Wraps 5 1) (by decide +kernel)
  obtain ⟨t, ht, hfound⟩ := (Option.any_eq_true _ _).mp hfound
  obtain ⟨hshows, hwraps⟩ := of_decide_eq_true hfound
  obtain ⟨-, ⟨r, hr⟩, hdecl⟩ := CodeTree.shows_iff.mp hshows
  have hscoped : Samples.shape.Scoped := DeclGraph.scoped_of_validate (by decide +kernel)
  obtain ⟨hiff, hneeds, -⟩ := finish_wraps_iff hscoped hs ht hr hdecl (by decide +kernel)
  obtain ⟨n, k, hn⟩ := hneeds (hiff.mp ⟨5, hwraps⟩)
  exact ⟨s, t, 4, n, r, k, hs, ht, hr, hdecl, hn⟩

end Generation

end Bindery
