import Bindery.Code.Render
import Bindery.Proofs.Code.Linking

/-!
# What the text of a node depends on

The text of a node, written without remembered texts, is made of what the nodes below it write, of
their child lists, and of the namespace aliases in scope at each of them.  These aliases stand in
front of the node or of something above it: they are the only part of the tree outside of the node
that its text depends on.

## Main definitions

* `NodeKind.alias?` — the alias that a node defines.

## Main results

* `freshText_congr` — **the text of a node depends on what is below it and on aliases in scope.**
* `Alike.freshText`, `freshText_create` — texts do not depend on remembered texts or new nodes.
* `Linked.freshText` — an adoption changes the texts below the child and above the parent only.
-/

namespace Bindery

/-- The namespace alias that a node defines. -/
def NodeKind.alias? : NodeKind → Option NamespaceAlias
  | .namespaceAlias a => some a
  | _ => none

namespace CodeTree

variable {t t' : CodeTree} {id p c q : NodeId} {front back : List NodeId}

/-! ### Aliases in scope -/

theorem aliasesBefore_eq (t : CodeTree) (p id : NodeId) : t.aliasesBefore p id =
    (((t.children p).takeWhile (· ≠ id)).filterMap fun c => (t.kind? c).bind (·.alias?)).reverse := by
  unfold aliasesBefore
  congr 1
  apply List.filterMap_congr
  intro c _
  cases h : t.kind? c with
  | none => rfl
  | some kind => cases kind <;> rfl

/-- The aliases in scope are those in front of each link of the chain. -/
theorem aliasesInScopeFrom_congr : ∀ {l : List NodeId} {id : NodeId}, Climbs t.parent? id l →
    (∀ x ∈ id :: l, ∀ p, t.parent? x = some p → t'.aliasesBefore p x = t.aliasesBefore p x) →
    t'.aliasesInScopeFrom id l = t.aliasesInScopeFrom id l
  | [], _, _, _ => rfl
  | p :: l, id, hl, h => by
    rw [aliasesInScopeFrom, aliasesInScopeFrom, h id List.mem_cons_self p hl.1,
      aliasesInScopeFrom_congr hl.2 fun x hx => h x (List.mem_cons_of_mem id hx)]

/-- Aliases in scope where the chain of parents stays, and with it what is in front of it. -/
theorem WellFormed.aliasesInScope_congr (hw : t.WellFormed) (ha : t'.ancestors id = t.ancestors id)
    (h : ∀ x ∈ id :: t.ancestors id, ∀ p, t.parent? x = some p →
      t'.aliasesBefore p x = t.aliasesBefore p x) :
    t'.aliasesInScope id = t.aliasesInScope id := by
  unfold aliasesInScope
  rw [ha]
  exact aliasesInScopeFrom_congr (hw.climbs_ancestors id) h

theorem libraryName_congr (h : t'.aliasesInScope id = t.aliasesInScope id) :
    t'.libraryName id = t.libraryName id := by
  funext name
  unfold libraryName shorten
  rw [h]

/-! ### The bound on the depth -/

theorem freshTextWithin_of_kind?_eq_none (h : t.kind? id = none) (fuel : Nat) :
    t.freshTextWithin fuel id = "" := by
  cases fuel with
  | zero => rfl
  | succ fuel => simp [freshTextWithin, h]

theorem mem_children_of_mem_writtenChildren {kind : NodeKind}
    (h : c ∈ t.writtenChildren id kind) : c ∈ t.children id := by
  unfold writtenChildren at h
  split at h
  · exact h
  · cases h

/-- Two bounds on the depth agree where both reach the deepest nodes. -/
theorem WellFormed.freshTextWithin_eq (hw : t.WellFormed) : ∀ (fuel fuel' : Nat) (id : NodeId),
    t.size ≤ fuel + (t.ancestors id).length → t.size ≤ fuel' + (t.ancestors id).length →
      t.freshTextWithin fuel id = t.freshTextWithin fuel' id := by
  -- a node to which a bound of zero applies does not exist, since no chain is as long as the tree
  have hzero : ∀ id, t.size ≤ (t.ancestors id).length → t.kind? id = none := by
    intro id hle
    cases hk : t.kind? id with
    | none => rfl
    | some kind =>
      have := hw.length_lt (hw.climbs_ancestors id) (lt_size_of_kind? hk)
      omega
  intro fuel
  induction fuel with
  | zero =>
    intro fuel' id hle _
    have hk := hzero id (by omega)
    rw [freshTextWithin_of_kind?_eq_none hk, freshTextWithin_of_kind?_eq_none hk]
  | succ fuel ih =>
    intro fuel' id hle hle'
    cases fuel' with
    | zero =>
      have hk := hzero id (by omega)
      rw [freshTextWithin_of_kind?_eq_none hk, freshTextWithin_of_kind?_eq_none hk]
    | succ fuel' =>
      unfold freshTextWithin
      cases hk : t.kind? id with
      | none => rfl
      | some kind =>
        simp only
        congr 1
        apply List.filterMap_congr
        intro c hc
        have hc := mem_children_of_mem_writtenChildren hc
        have hlen : (t.ancestors c).length = (t.ancestors id).length + 1 := by
          rw [hw.ancestors_child hc, List.length_cons]
        rw [ih fuel' c (by omega) (by omega)]

/-- A bound that reaches the deepest nodes below a node gives its whole text. -/
theorem WellFormed.freshTextWithin_eq_freshText (hw : t.WellFormed) {fuel : Nat}
    (h : t.size ≤ fuel + (t.ancestors id).length) : t.freshTextWithin fuel id = t.freshText id :=
  hw.freshTextWithin_eq fuel (t.size + 1) id h (by omega)

/-! ### What is below a node -/

private theorem freshTextWithin_congr (hw : t.WellFormed) : ∀ (fuel : Nat) (id : NodeId),
    (∀ q, id ∈ q :: t.ancestors q → t'.kind? q = t.kind? q ∧ t'.children q = t.children q ∧
      t'.aliasesInScope q = t.aliasesInScope q) →
    t'.freshTextWithin fuel id = t.freshTextWithin fuel id := by
  intro fuel
  induction fuel with
  | zero => exact fun _ _ => rfl
  | succ fuel ih =>
    intro id h
    obtain ⟨hkind, hchildren, haliases⟩ := h id List.mem_cons_self
    unfold freshTextWithin
    rw [hkind]
    cases t.kind? id with
    | none => rfl
    | some kind =>
      have hwritten : t'.writtenChildren id kind = t.writtenChildren id kind := by
        unfold writtenChildren
        rw [hchildren]
      simp only [hwritten, libraryName_congr haliases]
      congr 1
      apply List.filterMap_congr
      intro c hc
      have hid : id ∈ t.ancestors c := by
        rw [hw.ancestors_child (mem_children_of_mem_writtenChildren hc)]
        exact List.mem_cons_self
      -- what is below the child is below the node, so that the assumption passes on
      have hbelow : ∀ q, c ∈ q :: t.ancestors q → id ∈ q :: t.ancestors q := fun q hq =>
        List.mem_cons_of_mem q (hw.mem_ancestors_trans hid hq)
      rw [ih c fun q hq => h q (hbelow q hq)]
      unfold childText?
      rw [(h c (hbelow c List.mem_cons_self)).1]

/-- **The text of a node depends only on what the nodes below it write, on their child lists, and
on the aliases in scope at them.** -/
theorem freshText_congr (hw : t.WellFormed) (hw' : t'.WellFormed)
    (h : ∀ q, id ∈ q :: t.ancestors q → t'.kind? q = t.kind? q ∧ t'.children q = t.children q ∧
      t'.aliasesInScope q = t.aliasesInScope q) :
    t'.freshText id = t.freshText id := by
  have hsame := freshTextWithin_congr hw (t.size + t'.size) id h
  rwa [hw.freshTextWithin_eq_freshText (by omega), hw'.freshTextWithin_eq_freshText (by omega)]
    at hsame

/-! ### Changes that leave a text alone -/

/-- Neither headers nor remembered texts count. -/
theorem WellFormed.freshText_of_shape (hw : t.WellFormed) (hs : t'.size = t.size)
    (hk : t'.kind? = t.kind?) (hp : t'.parent? = t.parent?) (hc : t'.children = t.children) :
    t'.freshText id = t.freshText id := by
  refine freshText_congr hw (hw.congr hp hc) fun q _ => ?_
  refine ⟨by rw [hk], by rw [hc], ?_⟩
  refine hw.aliasesInScope_congr (by rw [ancestors_congr hp hs]) fun x _ p _ => ?_
  rw [aliasesBefore_eq, aliasesBefore_eq, hk, hc]

theorem Alike.freshText (h : Alike t t') (hw : t.WellFormed) : t'.freshText id = t.freshText id :=
  hw.freshText_of_shape h.size h.kind h.parent h.children

theorem parent?_create (t : CodeTree) (kind : NodeKind) (decl : Option DeclId) :
    (t.create kind decl).2.parent? = t.parent? := by
  funext q
  unfold parent?
  rw [get?_create]
  split
  · next hq => rw [get?_eq_none_iff.mpr hq.ge]; rfl
  · rfl

theorem children_create (t : CodeTree) (kind : NodeKind) (decl : Option DeclId) :
    (t.create kind decl).2.children = t.children := by
  funext q
  unfold children
  rw [get?_create]
  split
  · next hq =>
    rw [get?_eq_none_iff.mpr hq.ge]
    cases kind.isCompound <;> rfl
  · rfl

theorem kind?_create (t : CodeTree) (kind : NodeKind) (decl : Option DeclId) (q : NodeId) :
    (t.create kind decl).2.kind? q = if q = t.size then some kind else t.kind? q := by
  unfold kind?
  rw [get?_create]
  split <;> rfl

theorem kind?_create_of_lt (kind : NodeKind) (decl : Option DeclId) (h : q < t.size) :
    (t.create kind decl).2.kind? q = t.kind? q := by
  rw [kind?_create, if_neg h.ne]

theorem WellFormed.create (hw : t.WellFormed) (kind : NodeKind) (decl : Option DeclId) :
    (t.create kind decl).2.WellFormed :=
  hw.congr (parent?_create t kind decl) (children_create t kind decl)

/-- A new node does not count for the texts of the others. -/
theorem WellFormed.freshText_create (hw : t.WellFormed) (kind : NodeKind) (decl : Option DeclId)
    (hid : id < t.size) : (t.create kind decl).2.freshText id = t.freshText id := by
  have hw' := hw.create kind decl
  refine freshText_congr hw hw' fun q hq => ?_
  have hlt : q < t.size := by
    rcases List.mem_cons.mp hq with rfl | hq
    · exact hid
    · exact lt_size_of_climbs_ne_nil (hw.climbs_ancestors q) (List.ne_nil_of_mem hq)
  refine ⟨kind?_create_of_lt kind decl hlt, by rw [children_create], ?_⟩
  refine hw.aliasesInScope_congr ?_ fun x _ p _ => ?_
  · have hclimbs := hw.climbs_ancestors q
    rw [← parent?_create t kind decl] at hclimbs
    exact hw'.ancestors_eq hclimbs
  · rw [aliasesBefore_eq, aliasesBefore_eq, children_create]
    congr 1
    apply List.filterMap_congr
    intro y hy
    rw [kind?_create_of_lt kind decl (hw.child_lt ((List.takeWhile_sublist _).subset hy))]

/-- Above a node that stands alone there is nothing else. -/
theorem WellFormed.mem_ancestors_of_alone (hw : t.WellFormed) (hc : t.parent? c = none)
    (hmem : c ∈ id :: t.ancestors id) (hq : q ∈ id :: t.ancestors id) : c ∈ q :: t.ancestors q := by
  rcases hw.above_total hmem hq with h | h
  · exact h
  · have halone : Climbs t.parent? c [] := hc
    rw [hw.ancestors_eq halone, List.mem_singleton] at h
    exact h ▸ List.mem_cons_self

/-- An entry of a list that counts for nothing may be left out of what is in front of another. -/
private theorem filterMap_takeWhile_middle {α β : Type} [DecidableEq α] {f : α → Option β} {a y : α}
    (hf : f a = none) (hy : a ≠ y) : ∀ l r : List α,
    ((l ++ a :: r).takeWhile (· ≠ y)).filterMap f = ((l ++ r).takeWhile (· ≠ y)).filterMap f
  | [], r => by simp [hf, hy]
  | b :: l, r => by
    have ih := filterMap_takeWhile_middle hf hy l r
    by_cases hb : b = y
    · simp [hb]
    · simp only [List.cons_append, ne_eq, hb, not_false_eq_true, decide_true,
        List.takeWhile_cons_of_pos, List.filterMap_cons]
      rw [ih]

/-- Adoption leaves the chains above all nodes but those below the child. -/
theorem Linked.ancestors_of_not_mem (h : Linked t p c front back t') (hw : t.WellFormed)
    (hw' : t'.WellFormed) (hc : c ∉ id :: t.ancestors id) : t'.ancestors id = t.ancestors id :=
  hw'.ancestors_eq ((hw.climbs_ancestors id).congr fun x hx => h.parent x fun hxc => hc (hxc ▸ hx))

/-- What was below the child is below it still. -/
theorem Linked.mem_ancestors (h : Linked t p c front back t') (hw : t.WellFormed)
    (hw' : t'.WellFormed) (hc : c ∈ id :: t.ancestors id) : c ∈ id :: t'.ancestors id := by
  have hclimbs := Climbs.attach h.alone h.parent h.adopted (hw'.climbs_ancestors p)
    (hw.climbs_ancestors id) hc
  rw [hw'.ancestors_eq hclimbs]
  exact (List.mem_cons.mp hc).elim (fun h => h ▸ List.mem_cons_self)
    fun h => List.mem_cons_of_mem id (List.mem_append_left _ h)

/-- **The adoption of a node that is no alias changes the texts of nothing but the nodes below the
child and those above it.** -/
theorem Linked.freshText (h : Linked t p c front back t') (hw : t.WellFormed)
    (hw' : t'.WellFormed) (halias : (t.kind? c).bind (·.alias?) = none)
    (hc : c ∉ id :: t.ancestors id) (hp : id ∉ p :: t.ancestors p) :
    t'.freshText id = t.freshText id := by
  refine freshText_congr hw hw' fun q hq => ?_
  have hcq : c ∉ q :: t.ancestors q := fun hmem =>
    hc (hw.mem_ancestors_of_alone h.alone hmem hq)
  have hqp : q ≠ p := fun hqp => hp (hqp ▸ hq)
  refine ⟨by rw [h.kind], h.children q hqp, ?_⟩
  refine hw.aliasesInScope_congr (h.ancestors_of_not_mem hw hw' hcq) fun x hx y _ => ?_
  rw [aliasesBefore_eq, aliasesBefore_eq, h.kind]
  by_cases hy : y = p
  · -- the child is no alias, so that the same aliases are in front of `x` with it and without it
    rw [hy, h.after, h.before]
    congr 1
    have hcx : c ≠ x := fun hcx => hcq (hcx ▸ hx)
    exact filterMap_takeWhile_middle (f := fun c => (t.kind? c).bind (·.alias?)) halias hcx front back
  · rw [h.children y hy]

end CodeTree

end Bindery
