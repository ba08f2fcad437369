import Bindery.Proofs.Code.Changes

/-!
# Nodes with child lists

A node gets a child list when it is created, if its kind is a compound one, and keeps it, or stays
without one, whatever is done to the tree.  What the node writes may be replaced, though.  When a
leaf is made a compound node or a compound node a leaf, the kind of the node says one thing about
its children and the tree does another.

## Main definitions

* `Edit.created?` — the kind of the node that an edit creates.
* `CodeTree.ListsFit` — the kinds of nodes say which of them have child lists.
* `Edit.KeepsSort`, `CodeTree.AllKeepSort` — no leaf is made a compound node, nor the other way
  round.

## Main results

* `CreatedAs.applyAll` — the nodes with child lists are those that were created as compound ones.
* `adoptAt_eq_notCompound_iff` — the adoptions that fail because the parent has no child list.
* `listsFit_applyAll_iff` — **the kinds of nodes say which of them have child lists, exactly as long
  as no replacement makes a leaf of a compound node or the other way round.**
-/

namespace Bindery.CodeTree

variable {t t' : CodeTree} {id p c q : NodeId} {position : Nat} {kinds : List NodeKind}

/-! ### Edits that neither create nor replace -/

/-- Two trees with the same nodes, which write the same, and of which the same have child lists. -/
structure SameNodes (t t' : CodeTree) : Prop where
  size : t'.size = t.size
  kind : t'.kind? = t.kind?
  list : t'.hasChildList = t.hasChildList

theorem SameNodes.refl (t : CodeTree) : SameNodes t t := ⟨rfl, rfl, rfl⟩

theorem SameNodes.trans {t'' : CodeTree} (h : SameNodes t t') (h' : SameNodes t' t'') :
    SameNodes t t'' := ⟨h'.size.trans h.size, h'.kind.trans h.kind, h'.list.trans h.list⟩

theorem SameNodes.of_forgetAll (h : t'.forgetAll = t.forgetAll) : SameNodes t t' :=
  ⟨(Alike.of_forgetAll h).size, (Alike.of_forgetAll h).kind, hasChildList_congr h⟩

/-- An adoption or a removal rewrites a child list that is there. -/
theorem sameNodes_relink {cs : List NodeId} {parent : Option NodeId} (h : t.hasChildList p) :
    SameNodes t ((t.relink p cs c parent).forgetAround p c) :=
  SameNodes.trans ⟨size_relink, kind?_relink, hasChildList_relink_eq h⟩
    (.of_forgetAll (forgetAll_forgetAround _ p c))

theorem sameNodes_adoptAt (h : t.adoptAt p c position = .ok t') : SameNodes t t' := by
  simp only [adoptAt, Except.bind_eq_ok] at h
  obtain ⟨n, -, h⟩ := h
  cases hparent : n.parent with
  | some current =>
    rw [hparent] at h
    cases h
  | none =>
    simp only [hparent, Except.guard_eq_ok, Except.bind_eq_ok] at h
    obtain ⟨-, m, hm, h⟩ := h
    split at h
    · exact absurd h Except.throw_ne_ok
    · next cs hcs =>
      rw [Except.guard_eq_ok, Except.pure_eq_ok] at h
      obtain ⟨-, rfl⟩ := h
      exact sameNodes_relink (hasChildList_iff.mpr ⟨m, cs, node_eq_ok.mp hm, hcs⟩)

theorem sameNodes_remove (h : t.remove p c = .ok t') : SameNodes t t' := by
  simp only [remove, Except.bind_eq_ok] at h
  obtain ⟨-, -, m, hm, h⟩ := h
  split at h
  · exact absurd h Except.throw_ne_ok
  · next cs hcs =>
    rw [Except.guard_eq_ok, Except.pure_eq_ok] at h
    obtain ⟨-, rfl⟩ := h
    exact sameNodes_relink (hasChildList_iff.mpr ⟨m, cs, node_eq_ok.mp hm, hcs⟩)

theorem sameNodes_detach (h : t.detach c = .ok t') : SameNodes t t' := by
  simp only [detach, Except.bind_eq_ok] at h
  obtain ⟨n, -, h⟩ := h
  split at h
  · exact sameNodes_remove h
  · exact Except.pure_eq_ok.mp h ▸ .refl t

theorem sameNodes_moveTo (t : CodeTree) (p c : NodeId) (position : Nat) :
    SameNodes t (t.moveTo p c position).2 := by
  unfold moveTo
  split
  · exact .refl t
  · next s hs =>
    have h := sameNodes_detach hs
    split
    · exact h
    · next s' hs' => exact h.trans (sameNodes_adoptAt hs')

theorem sameNodes_addHeader {header : String} (h : t.addHeader id header = .ok t') :
    SameNodes t t' := by
  simp only [addHeader, Except.bind_eq_ok, Except.pure_eq_ok] at h
  obtain ⟨-, -, rfl⟩ := h
  refine ⟨size_modify _ _ _, kind?_modify ?_, hasChildList_modify ?_⟩
  all_goals
    intro n
    split <;> rfl

/-- What fails leaves the tree as it was. -/
theorem SameNodes.getD {r : Except TreeError CodeTree} (h : ∀ t', r = .ok t' → SameNodes t t') :
    SameNodes t (r.toOption.getD t) := by
  cases r with
  | error e => exact .refl t
  | ok t' => exact h t' rfl

/-- The edit neither creates a node nor replaces what one writes. -/
def Edit.keepsNodes : Edit → Bool
  | create .. | replaceKind .. => false
  | _ => true

theorem WellFormed.sameNodes (hw : t.WellFormed) {e : Edit} (he : e.keepsNodes = true) :
    SameNodes t (e.apply t) := by
  cases e with
  | create kind decl => cases he
  | adopt p c => exact .getD fun _ hok => sameNodes_adoptAt hok
  | adoptAt p c position => exact .getD fun _ hok => sameNodes_adoptAt hok
  | remove p c => exact .getD fun _ hok => sameNodes_remove hok
  | moveTo p c position => exact sameNodes_moveTo t p c position
  | addHeader id header => exact .getD fun _ hok => sameNodes_addHeader hok
  | replaceKind id kind => cases he
  | render id => exact .of_forgetAll (hw.prints id).2

theorem hasChildList_replaced (t : CodeTree) (id : NodeId) (kind : NodeKind) :
    (t.replaced id kind).hasChildList = t.hasChildList := by
  unfold replaced
  rw [hasChildList_modify]
  · exact hasChildList_congr (forgetAll_forgetUp t id)
  · exact fun _ => rfl

/-- The tree behind a replacement; there is nothing to replace at a number without a node. -/
theorem apply_replaceKind (t : CodeTree) (id : NodeId) (kind : NodeKind) :
    (Edit.replaceKind id kind).apply t = if id < t.size then t.replaced id kind else t := by
  show (t.replaceKind id kind).toOption.getD t = _
  split
  · next hlt =>
    obtain ⟨n, hn⟩ := exists_node hlt
    rw [replaceKind_eq_ok.mpr ⟨⟨n, node_eq_ok.mp hn⟩, rfl⟩]
    rfl
  · next hge =>
    have hnode : t.node id = .error (.unknownNode id) := node_eq_error.mpr ⟨rfl, not_lt.mp hge⟩
    rw [CodeTree.replaceKind, hnode]
    rfl

/-! ### The kinds that nodes were created with -/

/-- The kind of the node that an edit creates. -/
def Edit.created? : Edit → Option NodeKind
  | create kind _ => some kind
  | _ => none

/-- The nodes of the tree were created with the given kinds, and those that were created as compound
nodes have child lists. -/
structure CreatedAs (t : CodeTree) (kinds : List NodeKind) : Prop where
  size : t.size = kinds.length
  list : ∀ id, t.hasChildList id = (kinds[id]?).any (·.isCompound)

theorem CreatedAs.create (h : t.CreatedAs kinds) (kind : NodeKind) (decl : Option DeclId) :
    (t.create kind decl).2.CreatedAs (kinds ++ [kind]) where
  size := by
    rw [List.length_append, ← h.size]
    exact Array.size_push _
  list id := by
    rw [hasChildList_create]
    split
    · next hid =>
      rw [hid, h.size, List.getElem?_concat_length]
      rfl
    · next hid =>
      rw [h.size] at hid
      rcases Nat.lt_or_gt_of_ne hid with hlt | hgt
      · rw [h.list, List.getElem?_append_left hlt]
      · have hle : (kinds ++ [kind]).length ≤ id := by
          rw [List.length_append, List.length_singleton]
          omega
        rw [h.list, List.getElem?_eq_none hgt.le, List.getElem?_eq_none hle]

theorem createdAs_ofKind (kind : NodeKind) : (ofKind kind).CreatedAs [kind] := by
  have hempty : CreatedAs {} [] := ⟨rfl, fun _ => rfl⟩
  exact hempty.create kind none

theorem CreatedAs.congr (h : t.CreatedAs kinds) (hsize : t'.size = t.size)
    (hlist : t'.hasChildList = t.hasChildList) : t'.CreatedAs kinds :=
  ⟨hsize.trans h.size, fun id => hlist ▸ h.list id⟩

/-- An edit creates at most one node, and no other child list comes or goes. -/
theorem CreatedAs.apply (h : t.CreatedAs kinds) (hw : t.WellFormed) (e : Edit) :
    (e.apply t).CreatedAs (kinds ++ e.created?.toList) := by
  have hsame : e.keepsNodes = true → (e.apply t).CreatedAs (kinds ++ []) := fun he => by
    have hs := hw.sameNodes he
    rw [List.append_nil]
    exact h.congr hs.size hs.list
  cases e with
  | create kind decl => exact h.create kind decl
  | replaceKind id kind =>
    show ((Edit.replaceKind id kind).apply t).CreatedAs (kinds ++ [])
    rw [List.append_nil, apply_replaceKind]
    split
    · exact h.congr (size_replaced t id kind) (hasChildList_replaced t id kind)
    · exact h
  | _ => exact hsame rfl

/-- **The nodes with child lists are those that were created as compound ones**, whatever has been
done to the tree since then. -/
theorem CreatedAs.applyAll {edits : List Edit} (h : t.CreatedAs kinds) (hw : t.WellFormed) :
    (t.applyAll edits).CreatedAs (kinds ++ edits.filterMap Edit.created?) := by
  induction edits generalizing t kinds with
  | nil => exact (List.append_nil kinds).symm ▸ h
  | cons e edits ih =>
    have hlist : (e :: edits).filterMap Edit.created? =
        e.created?.toList ++ edits.filterMap Edit.created? := by
      rw [List.filterMap_cons]
      cases e.created? <;> rfl
    rw [hlist, ← List.append_assoc]
    exact ih (h.apply hw e) (hw.apply e)

/-! ### Adoptions that fail for want of a child list -/

/-- Nothing about the place of the child stands against its adoption: it stands alone, and the
parent is not below it. -/
structure FreeFor (t : CodeTree) (p c : NodeId) : Prop where
  child : c < t.size
  alone : t.parent? c = none
  ne : c ≠ p
  notAbove : c ∉ t.ancestors p

/-- **An adoption fails for want of a child list exactly if its parent has none** and nothing about
the place of the child stands against it. -/
theorem adoptAt_eq_notCompound_iff : t.adoptAt p c position = .error (.notCompound q) ↔
    q = p ∧ t.FreeFor p c ∧ p < t.size ∧ t.hasChildList p = false := by
  constructor
  · intro h
    simp only [adoptAt, Except.bind_eq_error, node_eq_error, node_eq_ok, reduceCtorEq, false_and,
      false_or] at h
    obtain ⟨n, hn, h⟩ := h
    cases hparent : n.parent with
    | some current =>
      rw [hparent] at h
      cases h
    | none =>
      simp only [hparent, Except.guard_eq_error, Except.bind_eq_error, node_eq_error, node_eq_ok,
        reduceCtorEq, and_false, false_and, false_or, not_or] at h
      obtain ⟨⟨hne, hnot⟩, m, hm, h⟩ := h
      cases hcs : m.children with
      | some cs =>
        simp only [hcs, Except.guard_eq_error, reduceCtorEq, and_false, false_or] at h
        cases h.2
      | none =>
        rw [hcs] at h
        cases h
        refine ⟨rfl, ⟨(Array.getElem?_eq_some_iff.mp hn).1, ?_, hne, hnot⟩,
          (Array.getElem?_eq_some_iff.mp hm).1, ?_⟩
        · rw [parent?, hn, Option.bind_some, hparent]
        · rw [hasChildList, hm, Option.any_some, hcs]
          rfl
  · rintro ⟨rfl, hfree, hlt, hlist⟩
    obtain ⟨n, hn⟩ := exists_node hfree.child
    obtain ⟨m, hm⟩ := exists_node hlt
    have halone : n.parent = none := by simpa [parent?, node_eq_ok.mp hn] using hfree.alone
    have hcs : m.children = none := by simpa [hasChildList, node_eq_ok.mp hm] using hlist
    simp [adoptAt, hn, hm, halone, hfree.ne, hfree.notAbove, hcs, bind, Except.bind, throw,
      throwThe, MonadExceptOf.throw]

/-! ### Kinds and child lists -/

/-- The kind of a node says whether the node has a child list, whether an adoption by the node fails
for want of one, and of a leaf that nothing is below it. -/
structure ListsFit (t : CodeTree) : Prop where
  list : ∀ id kind, t.kind? id = some kind → t.hasChildList id = kind.isCompound
  refused : ∀ p c q, t.adopt p c = .error (.notCompound q) ↔
    q = p ∧ t.FreeFor p c ∧ ∃ kind, t.kind? p = some kind ∧ kind.isCompound = false
  leaf : ∀ id kind, t.kind? id = some kind → kind.isCompound = false → t.children id = []

/-- What adoptions and leaves are like follows from what child lists there are. -/
theorem listsFit_iff :
    t.ListsFit ↔ ∀ id kind, t.kind? id = some kind → t.hasChildList id = kind.isCompound := by
  refine ⟨ListsFit.list, fun h => ⟨h, fun p c q => ?_, fun id kind hkind hleaf => ?_⟩⟩
  · rw [adopt, adoptAt_eq_notCompound_iff, ← isSome_kind?_iff, Option.isSome_iff_exists]
    refine and_congr_right fun _ => and_congr_right fun _ => ⟨?_, ?_⟩
    · rintro ⟨⟨kind, hkind⟩, hlist⟩
      exact ⟨kind, hkind, (h p kind hkind).symm.trans hlist⟩
    · rintro ⟨kind, hkind, hleaf⟩
      exact ⟨⟨kind, hkind⟩, (h p kind hkind).trans hleaf⟩
  · rw [List.eq_nil_iff_forall_not_mem]
    intro c hc
    have hlist := hasChildList_of_mem_children hc
    rw [h id kind hkind, hleaf] at hlist
    cases hlist

/-- An edit keeps the sorts of nodes if it does not make a leaf of a compound node or the other way
round. -/
def Edit.KeepsSort (t : CodeTree) : Edit → Prop
  | replaceKind id kind => ∀ old, t.kind? id = some old → kind.isCompound = old.isCompound
  | _ => True

/-- Every edit of a run keeps the sorts of nodes where it is made. -/
def AllKeepSort : CodeTree → List Edit → Prop
  | _, [] => True
  | t, e :: edits => e.KeepsSort t ∧ AllKeepSort (e.apply t) edits

theorem listsFit_ofKind (kind : NodeKind) : (ofKind kind).ListsFit := by
  rw [listsFit_iff]
  intro id k hk
  unfold ofKind at hk ⊢
  rw [kind?_create] at hk
  rw [hasChildList_create]
  split at hk
  · next hid =>
    rw [if_pos hid, Option.some.inj hk]
  · cases hk

theorem ListsFit.create (h : t.ListsFit) (kind : NodeKind) (decl : Option DeclId) :
    (t.create kind decl).2.ListsFit := by
  rw [listsFit_iff]
  intro id k hk
  rw [kind?_create] at hk
  rw [hasChildList_create]
  split at hk
  · next hid => rw [if_pos hid, Option.some.inj hk]
  · next hid => rw [if_neg hid, h.list id k hk]

/-- The replacement of what a node writes leaves its child list alone, so that the new kind has to
say the same about it as the old one. -/
theorem ListsFit.replaceKind_iff (h : t.ListsFit) (id : NodeId) (kind : NodeKind) :
    ((Edit.replaceKind id kind).apply t).ListsFit ↔ (Edit.replaceKind id kind).KeepsSort t := by
  rw [apply_replaceKind]
  split
  · next hlt =>
    obtain ⟨old, hold⟩ := Option.isSome_iff_exists.mp (isSome_kind?_iff.mpr hlt)
    obtain ⟨n, hn, -⟩ := Option.map_eq_some_iff.mp hold
    have hself := kind?_replaced_self hn kind
    rw [listsFit_iff, hasChildList_replaced]
    constructor
    · intro hfit k hk
      rw [← hfit id kind hself, h.list id k hk]
    · intro hkeeps q k hk
      by_cases hq : id = q
      · subst hq
        rw [hself] at hk
        rw [h.list id old hold, ← hkeeps old hold, Option.some.inj hk]
      · rw [kind?_replaced_of_ne t kind hq] at hk
        exact h.list q k hk
  · next hge =>
    refine iff_of_true h fun old hold => absurd (lt_size_of_kind? hold) hge

/-- **An edit keeps kinds and child lists in step exactly if it keeps the sorts of nodes.** -/
theorem ListsFit.apply_iff (h : t.ListsFit) (hw : t.WellFormed) (e : Edit) :
    (e.apply t).ListsFit ↔ e.KeepsSort t := by
  have hsame : e.keepsNodes = true → (e.apply t).ListsFit := fun he => by
    have hs := hw.sameNodes he
    rw [listsFit_iff, hs.kind, hs.list]
    exact h.list
  cases e with
  | create kind decl => exact iff_of_true (h.create kind decl) trivial
  | replaceKind id kind => exact h.replaceKind_iff id kind
  | _ => exact iff_of_true (hsame rfl) trivial

theorem ListsFit.allKeepSort_iff {edits : List Edit} (h : t.ListsFit) (hw : t.WellFormed) :
    (∀ front, front <+: edits → (t.applyAll front).ListsFit) ↔ t.AllKeepSort edits := by
  induction edits generalizing t with
  | nil =>
    refine iff_of_true (fun front hfront => ?_) trivial
    rw [List.prefix_nil.mp hfront]
    exact h
  | cons e edits ih =>
    constructor
    · intro hfits
      -- the run of the first edit alone shows that it keeps the sorts
      have hfirst : (e.apply t).ListsFit := hfits [e] (List.prefix_append [e] edits)
      refine ⟨(h.apply_iff hw e).mp hfirst, (ih hfirst (hw.apply e)).mp fun front hfront => ?_⟩
      exact hfits (e :: front) (List.cons_prefix_cons.mpr ⟨rfl, hfront⟩)
    · rintro ⟨he, hrest⟩ front hfront
      have hfirst := (h.apply_iff hw e).mpr he
      cases front with
      | nil => exact h
      | cons d front =>
        obtain ⟨rfl, hback⟩ := List.cons_prefix_cons.mp hfront
        exact (ih hfirst (hw.apply d)).mpr hrest front hback

/-- **A node has a child list exactly if it was created as a compound one.**  Its kind says the same
about it, about adoptions and about its children, at every moment of a run of edits, exactly if no
replacement in the run makes a leaf of a compound node or the other way round. -/
theorem listsFit_applyAll_iff (kind : NodeKind) (edits : List Edit) :
    (∀ id, ((ofKind kind).applyAll edits).hasChildList id =
      ((kind :: edits.filterMap Edit.created?)[id]?).any (·.isCompound)) ∧
    ((∀ front, front <+: edits → ((ofKind kind).applyAll front).ListsFit) ↔
      (ofKind kind).AllKeepSort edits) := by
  have hw : (ofKind kind).WellFormed := wellFormed_empty.create kind none
  exact ⟨((createdAs_ofKind kind).applyAll hw).list, (listsFit_ofKind kind).allKeepSort_iff hw⟩

/-- A text that is made a body, a text to be adopted, and a body with a child that is made a
text. -/
def Edit.exchangedSorts : List Edit :=
  [.create (.customText { text := "a" }) none, .replaceKind 1 (.moduleBody "b"),
    .create (.customText { text := "c" }) none,
    .create (.moduleBody "d") none, .create (.customText { text := "e" }) none, .adopt 3 4,
    .replaceKind 3 (.customText { text := "f" })]

/-- The body does not adopt the text, as it was a text when it was created; and a text has a child,
as it was a body then. -/
theorem listsFit_exchangedSorts : ∃ edits : List Edit,
    let t := (ofKind (.module "m")).applyAll edits
    t.kind? 1 = some (.moduleBody "b") ∧ t.adopt 1 2 = .error (.notCompound 1) ∧
      t.kind? 3 = some (.customText { text := "f" }) ∧ t.children 3 = [4] ∧ ¬ t.ListsFit := by
  refine ⟨Edit.exchangedSorts, by decide +kernel, by decide +kernel, by decide +kernel,
    by decide +kernel, fun h => ?_⟩
  have hbody := h.list 1 (.moduleBody "b") (by decide +kernel)
  exact absurd hbody (by decide +kernel)

end Bindery.CodeTree
