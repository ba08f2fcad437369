import Bindery.Proofs.Code.Shape
import Bindery.Proofs.ListOrder
import Bindery.Proofs.Walks

/-!
# The order of the texts

The texts of a tree come in pre-order: each node in front of what is below it, and what is below
one child in front of what is below the next.  Of two nodes that are not below each other, the
children of one node decide.

## Main results

* `WellFormed.descendants_eq` — a node and then, one after the other, what is below its children.
* `WellFormed.nodup_descendants` — nothing is listed twice.
* `WellFormed.exists_meet` — nodes that are not below each other are below different children of
  one node.
* `WellFormed.before_descendants_iff` — **the order of the children is the order of what is below
  them.**
-/

namespace Bindery.CodeTree

variable {t : CodeTree} {id p c r x y a b : NodeId}

/-! ### Walks to the bottom -/

private theorem descendantsWithin_of_children_eq_nil (h : t.children id = []) (fuel : Nat) :
    t.descendantsWithin fuel id = [id] := by
  cases fuel <;> simp [descendantsWithin, h]

/-- Two bounds on the depth agree where both reach the bottom. -/
private theorem WellFormed.descendantsWithin_congr (h : t.WellFormed) :
    ∀ (fuel fuel' : Nat) (id : NodeId) (l : List NodeId), Climbs t.parent? id l →
      t.size ≤ fuel + l.length → t.size ≤ fuel' + l.length →
      t.descendantsWithin fuel id = t.descendantsWithin fuel' id := by
  -- no chain is as long as the tree is large, so that the bottom is reached in time
  have hbottom : ∀ id l fuel, Climbs t.parent? id l → t.size ≤ l.length →
      t.descendantsWithin fuel id = [id] := by
    intro id l fuel hl hsize
    apply descendantsWithin_of_children_eq_nil
    rw [List.eq_nil_iff_forall_not_mem]
    intro c hc
    have hlen := h.length_lt hl (lt_size_of_mem_children hc)
    omega
  intro fuel
  induction fuel with
  | zero =>
    intro fuel' id l hl hsize hsize'
    rw [hbottom id l 0 hl (by omega), hbottom id l fuel' hl (by omega)]
  | succ fuel ih =>
    intro fuel' id l hl hsize hsize'
    cases fuel' with
    | zero => rw [hbottom id l _ hl (by omega), hbottom id l 0 hl (by omega)]
    | succ fuel' =>
      unfold descendantsWithin
      congr 1
      apply List.flatMap_congr
      intro c hc
      exact ih fuel' c (id :: l) ⟨(h.child id c).mp hc, hl⟩ (by rw [List.length_cons]; omega)
        (by rw [List.length_cons]; omega)

/-- A bound on the depth that is at least the number of nodes is not felt. -/
theorem WellFormed.descendantsWithin_eq (h : t.WellFormed) (id : NodeId) (extra : Nat) :
    t.descendantsWithin (t.size + extra) id = t.descendants id := by
  obtain ⟨l, hl⟩ := h.climbs id
  exact h.descendantsWithin_congr _ _ id l hl (by omega) (by omega)

/-- A node, and then what is below its children. -/
theorem WellFormed.descendants_eq (h : t.WellFormed) (id : NodeId) :
    t.descendants id = id :: (t.children id).flatMap t.descendants := by
  rw [← h.descendantsWithin_eq id 1]
  rfl

theorem WellFormed.mem_descendants (h : t.WellFormed) :
    a ∈ t.descendants r ↔ r ∈ a :: t.ancestors a := by
  rw [h.mem_descendants_iff, List.mem_cons]
  exact or_congr_left eq_comm

theorem WellFormed.mem_descendants_child (h : t.WellFormed) (hp : p ∈ t.descendants r)
    (hc : c ∈ t.children p) : c ∈ t.descendants r := by
  rw [h.mem_descendants, h.ancestors_child hc]
  exact List.mem_cons_of_mem c (h.mem_descendants.mp hp)

/-- What is below a node is found by walking along children. -/
theorem WellFormed.mem_descendants_iff_reflTransGen (h : t.WellFormed) :
    a ∈ t.descendants r ↔ Relation.ReflTransGen (fun p c => c ∈ t.children p) r a := by
  have hup : ∀ (l : List NodeId) (a : NodeId), Climbs t.parent? a l → r ∈ a :: l →
      Relation.ReflTransGen (fun p c => c ∈ t.children p) r a := by
    intro l
    induction l with
    | nil =>
      intro a _ hr
      rw [List.mem_singleton.mp hr]
    | cons p l ih =>
      intro a hl hr
      rcases List.mem_cons.mp hr with rfl | hr
      · exact .refl
      · exact (ih p hl.2 hr).tail ((h.child p a).mpr hl.1)
  constructor
  · intro ha
    exact hup _ a (h.climbs_ancestors a) (h.mem_descendants.mp ha)
  · intro ha
    induction ha with
    | refl => exact h.mem_descendants.mpr List.mem_cons_self
    | tail _ hc ih => exact h.mem_descendants_child ih hc

/-- What is below a node comes in the order in which it comes below the nodes above. -/
theorem WellFormed.descendants_sublist (h : t.WellFormed) (hp : p ∈ t.descendants r) :
    (t.descendants p).Sublist (t.descendants r) := by
  have hup : ∀ (l : List NodeId) (p : NodeId), Climbs t.parent? p l → r ∈ p :: l →
      (t.descendants p).Sublist (t.descendants r) := by
    intro l
    induction l with
    | nil =>
      intro p _ hr
      rw [List.mem_singleton.mp hr]
    | cons q l ih =>
      intro p hl hr
      rcases List.mem_cons.mp hr with rfl | hr
      · exact List.Sublist.refl _
      · have hchild : [p].Sublist (t.children q) :=
          List.singleton_sublist.mpr ((h.child q p).mpr hl.1)
        have hparent : (t.descendants p).Sublist (t.descendants q) := by
          rw [h.descendants_eq q]
          have hflat := hchild.flatMap t.descendants
          rw [List.flatMap_singleton] at hflat
          exact hflat.trans (List.sublist_cons_self q _)
        exact hparent.trans (ih q hl.2 hr)
  exact hup _ p (h.climbs_ancestors p) (h.mem_descendants.mp hp)

/-! ### Nothing is listed twice -/

theorem WellFormed.nodup_descendants (h : t.WellFormed) (id : NodeId) :
    (t.descendants id).Nodup :=
  nodup_below h.descendants_eq (fun p c hc => (h.child p c).mp hc) h.nodup h.climbs id

/-! ### Two nodes -/

/-- Nodes below one node, but not below each other, are below different children of one node. -/
theorem WellFormed.exists_meet (h : t.WellFormed) (ha : a ∈ t.descendants r)
    (hb : b ∈ t.descendants r) (hab : a ∉ b :: t.ancestors b) (hba : b ∉ a :: t.ancestors a) :
    ∃ p x y, p ∈ t.descendants r ∧ x ∈ t.children p ∧ y ∈ t.children p ∧ x ≠ y ∧
      a ∈ t.descendants x ∧ b ∈ t.descendants y := by
  have har := h.mem_descendants.mp ha
  have hbr := h.mem_descendants.mp hb
  have hr : r ∈ t.ancestors a := (List.mem_cons.mp har).resolve_left fun heq => hab (heq ▸ hbr)
  -- the first node above `a` that is also above `b`
  obtain ⟨x, p, hpa, l, hx, hxb, hxp, hpb, hl, hrp⟩ :=
    (h.climbs_ancestors a).exists_border (P := (· ∈ b :: t.ancestors b)) hab hr hbr
  have hpb : p ∈ t.ancestors b := (List.mem_cons.mp hpb).resolve_left fun heq =>
    hba (heq ▸ List.mem_cons_of_mem a hpa)
  obtain ⟨y, hy, hyp⟩ := (h.climbs_ancestors b).mem_parent hpb
  refine ⟨p, x, y, ?_, (h.child p x).mpr hxp, (h.child p y).mpr hyp, fun heq => hxb (heq ▸ hy),
    h.mem_descendants.mpr hx, h.mem_descendants.mpr hy⟩
  rw [h.mem_descendants, h.ancestors_eq hl]
  exact hrp

/-- **The order of the children is the order of what is below them.** -/
theorem WellFormed.before_descendants_iff (h : t.WellFormed) (hp : p ∈ t.descendants r)
    (hx : x ∈ t.children p) (hy : y ∈ t.children p) (hne : y ≠ x) (ha : a ∈ t.descendants x)
    (hb : b ∈ t.descendants y) : Before (t.descendants r) b a ↔ Before (t.children p) y x := by
  have hdown : ∀ {x y a b}, a ∈ t.descendants x → b ∈ t.descendants y →
      Before (t.children p) y x → Before (t.descendants r) b a := by
    intro x y a b ha hb hyx
    have hflat := hyx.flatMap hb ha
    apply (hflat.mono (List.sublist_cons_self p _)).mono
    rw [← h.descendants_eq p]
    exact h.descendants_sublist hp
  refine ⟨fun hba => (Before.total hy hx hne).resolve_right fun hxy => ?_, hdown ha hb⟩
  exact hba.asymm (h.nodup_descendants r) (hdown hb ha hxy)

end Bindery.CodeTree
