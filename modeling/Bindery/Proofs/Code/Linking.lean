import Bindery.Proofs.Code.Shape
import Bindery.Proofs.ListOrder

/-!
# Single edits

Adoption puts a node that stands alone into a child list; removal is the same change backwards.
Both then forget texts, which leaves the shape alone.  What a node writes and the headers it needs
are changed in place.

## Main definitions

* `CodeTree.remembered?` — the remembered text of a node.
* `CodeTree.Linked t p c front back t'` — `t'` is `t` with `c` put into the child list of `p`.
* `CodeTree.replaced` — the tree in which a node writes something else.

## Main results

* `adoptAt_ok`, `remove_ok`, `addHeader_ok`, `replaceKind_eq_ok` — what a successful edit has done.
* `Linked.wellFormed`, `Linked.wellFormed_back` — both directions keep a tree well-formed.
-/

namespace Bindery.CodeTree

variable {t t' u : CodeTree} {id p c q : NodeId} {front back : List NodeId}

/-- The text that is remembered of a node. -/
def remembered? (t : CodeTree) (id : NodeId) : Option String := (t.get? id).bind (·.cache)

/-- `c`, which stands alone in `t`, has been put into the child list of `p`. -/
structure Linked (t : CodeTree) (p c : NodeId) (front back : List NodeId) (t' : CodeTree) :
    Prop where
  size : t'.size = t.size
  kind : t'.kind? = t.kind?
  decl : t'.decl? = t.decl?
  headers : t'.headers = t.headers
  before : t.children p = front ++ back
  after : t'.children p = front ++ c :: back
  children : ∀ q, q ≠ p → t'.children q = t.children q
  alone : t.parent? c = none
  adopted : t'.parent? c = some p
  parent : ∀ q, q ≠ c → t'.parent? q = t.parent? q

theorem Linked.congr_right (h : Linked t p c front back u) (ha : Alike u t') :
    Linked t p c front back t' where
  size := ha.size.trans h.size
  kind := ha.kind.trans h.kind
  decl := ha.decl.trans h.decl
  headers := ha.headers.trans h.headers
  before := h.before
  after := by rw [ha.children, h.after]
  children q hq := by rw [ha.children, h.children q hq]
  alone := h.alone
  adopted := by rw [ha.parent, h.adopted]
  parent q hq := by rw [ha.parent, h.parent q hq]

theorem Linked.congr_left (h : Linked t p c front back t') (ha : Alike t u) :
    Linked u p c front back t' where
  size := h.size.trans ha.size.symm
  kind := h.kind.trans ha.kind.symm
  decl := h.decl.trans ha.decl.symm
  headers := h.headers.trans ha.headers.symm
  before := by rw [ha.children, h.before]
  after := h.after
  children q hq := by rw [ha.children, h.children q hq]
  alone := by rw [ha.parent, h.alone]
  adopted := h.adopted
  parent q hq := by rw [ha.parent, h.parent q hq]

/-! ### Well-formed trees -/

/-- Adoption keeps a tree well-formed, if the child is not above its new parent. -/
theorem Linked.wellFormed (h : Linked t p c front back t') (hw : t.WellFormed) (hne : c ≠ p)
    (hnot : c ∉ t.ancestors p) : t'.WellFormed where
  child q x := by
    have hold := hw.child q x
    by_cases hx : x = c
    · subst hx
      rw [h.adopted]
      rw [h.alone] at hold
      by_cases hq : q = p
      · subst hq
        simp [h.after]
      · rw [h.children q hq, hold]
        simp [Ne.symm hq]
    · rw [h.parent x hx, ← hold]
      by_cases hq : q = p
      · subst hq
        rw [h.after, h.before]
        simp [hx]
      · rw [h.children q hq]
  nodup q := by
    by_cases hq : q = p
    · subst hq
      have hc : c ∉ t.children q := fun hmem => by
        have := (hw.child q c).mp hmem
        rw [h.alone] at this
        cases this
      have hnodup := hw.nodup q
      rw [h.before] at hc hnodup
      rw [h.after]
      exact List.nodup_middle.mpr (List.nodup_cons.mpr ⟨hc, hnodup⟩)
    · rw [h.children q hq]
      exact hw.nodup q
  climbs q := by
    -- the chain above the new parent does not meet the child, and stays
    have hp : Climbs t'.parent? p (t.ancestors p) := by
      refine (hw.climbs_ancestors p).congr fun x hx => h.parent x ?_
      rintro rfl
      exact (List.mem_cons.mp hx).elim hne hnot
    have hq := hw.climbs_ancestors q
    by_cases hmem : c ∈ q :: t.ancestors q
    · exact ⟨_, Climbs.attach h.alone h.parent h.adopted hp hq hmem⟩
    · exact ⟨_, hq.congr fun x hx => h.parent x fun hxc => hmem (hxc ▸ hx)⟩

/-- Removal keeps a tree well-formed. -/
theorem Linked.wellFormed_back (h : Linked t p c front back t') (hw : t'.WellFormed) :
    t.WellFormed where
  child q x := by
    have hold := hw.child q x
    by_cases hq : q = p
    · subst hq
      have hnodup := hw.nodup q
      rw [h.after] at hold hnodup
      rw [h.before]
      obtain ⟨hc, -⟩ := List.nodup_cons.mp (List.nodup_middle.mp hnodup)
      by_cases hx : x = c
      · subst hx
        simp [h.alone, hc]
      · rw [← h.parent x hx, ← hold]
        simp [hx]
    · rw [← h.children q hq, hold]
      by_cases hx : x = c
      · subst hx
        rw [h.adopted, h.alone]
        simp [Ne.symm hq]
      · rw [h.parent x hx]
  nodup q := by
    by_cases hq : q = p
    · subst hq
      have hnodup := hw.nodup q
      rw [h.after] at hnodup
      rw [h.before]
      exact (List.nodup_cons.mp (List.nodup_middle.mp hnodup)).2
    · rw [← h.children q hq]
      exact hw.nodup q
  climbs q := by
    -- a chain that meets the child ends there now
    obtain ⟨l, -, hl⟩ := (hw.climbs_ancestors q).detach (fun x hx => (h.parent x hx).symm) h.alone
    exact ⟨l, hl⟩

/-! ### Single edits -/

theorem node_eq_ok {n : CodeNode} : t.node id = .ok n ↔ t.get? id = some n := by
  unfold node
  split
  · next m hm => simp [hm]
  · next hm => simp [hm]

theorem exists_node (h : q < t.size) : ∃ n, t.node q = .ok n := by
  cases hn : t.get? q with
  | none => exact absurd h (Nat.not_lt.mpr (get?_eq_none_iff.mp hn))
  | some n => exact ⟨n, node_eq_ok.mpr hn⟩

theorem node_eq_error {e : TreeError} :
    t.node id = .error e ↔ e = .unknownNode id ∧ t.size ≤ id := by
  rw [← get?_eq_none_iff]
  unfold node
  cases t.get? id <;> simp [eq_comm]

/-- The tree in which a node has another child list and one of its children another parent. -/
def relink (t : CodeTree) (p : NodeId) (cs : List NodeId) (c : NodeId) (parent : Option NodeId) :
    CodeTree :=
  (t.modify p fun n => { n with children := some cs }).modify c fun n => { n with parent }

section relink

variable {cs cs' : List NodeId} {n m : CodeNode} {parent : Option NodeId}

theorem get?_relink (q : NodeId) : (t.relink p cs c parent).get? q =
    (t.get? q).map fun n => { n with
      children := if p = q then some cs else n.children
      parent := if c = q then parent else n.parent } := by
  unfold relink
  rw [get?_modify, get?_modify]
  cases t.get? q with
  | none => simp
  | some n => by_cases hp : p = q <;> by_cases hc : c = q <;> simp [hp, hc]

theorem size_relink : (t.relink p cs c parent).size = t.size := by simp [relink]

theorem kind?_relink : (t.relink p cs c parent).kind? = t.kind? := by
  funext q
  simp only [kind?, get?_relink, Option.map_map]
  rfl

theorem decl?_relink : (t.relink p cs c parent).decl? = t.decl? := by
  funext q
  simp only [decl?, get?_relink, Option.bind_map]
  rfl

theorem headers_relink : (t.relink p cs c parent).headers = t.headers := by
  funext q
  simp only [headers, get?_relink, Option.map_map]
  rfl

theorem remembered?_relink : (t.relink p cs c parent).remembered? = t.remembered? := by
  funext q
  simp only [remembered?, get?_relink, Option.bind_map]
  rfl

theorem children_relink_self (hp : t.get? p = some n) : (t.relink p cs c parent).children p = cs := by
  simp [children, get?_relink, hp]

theorem children_relink_of_ne (hq : q ≠ p) :
    (t.relink p cs c parent).children q = t.children q := by
  simp only [children, get?_relink, if_neg (Ne.symm hq), Option.bind_map]
  rfl

theorem parent?_relink_self (hc : t.get? c = some n) : (t.relink p cs c parent).parent? c = parent := by
  simp [parent?, get?_relink, hc]

theorem parent?_relink_of_ne (hq : q ≠ c) :
    (t.relink p cs c parent).parent? q = t.parent? q := by
  simp only [parent?, get?_relink, if_neg (Ne.symm hq), Option.bind_map]
  rfl

theorem hasChildList_relink (hq : t.hasChildList q) :
    (t.relink p cs c parent).hasChildList q := by
  unfold hasChildList at hq ⊢
  rw [get?_relink, Option.any_map]
  cases hn : t.get? q with
  | none =>
    rw [hn] at hq
    cases hq
  | some n =>
    rw [hn] at hq
    by_cases hpq : p = q
    · simp [hpq]
    · simpa [hpq] using hq

/-- No child list comes or goes where the one that is replaced was there before. -/
theorem hasChildList_relink_eq (hp : t.hasChildList p) :
    (t.relink p cs c parent).hasChildList = t.hasChildList := by
  funext q
  by_cases hq : p = q
  · subst hq
    rw [hasChildList_relink hp, hp]
  · simp only [hasChildList, get?_relink, if_neg hq, Option.any_map]

end relink

/-- A tree relinked so that `c`, which stood alone, is put into the child list of `p`. -/
theorem linked_relink {n m : CodeNode} (hp : t.get? p = some n) (hc : t.get? c = some m)
    (hbefore : t.children p = front ++ back) (halone : t.parent? c = none) :
    Linked t p c front back (t.relink p (front ++ c :: back) c (some p)) where
  size := size_relink
  kind := kind?_relink
  decl := decl?_relink
  headers := headers_relink
  before := hbefore
  after := children_relink_self hp
  children _ hq := children_relink_of_ne hq
  alone := halone
  adopted := parent?_relink_self hc
  parent _ hq := parent?_relink_of_ne hq

/-- A tree relinked so that the child `c` of `p` stands alone. -/
theorem linked_relink_back {n m : CodeNode} (hp : t.get? p = some n) (hc : t.get? c = some m)
    (hafter : t.children p = front ++ c :: back) (hadopted : t.parent? c = some p) :
    Linked (t.relink p (front ++ back) c none) p c front back t where
  size := size_relink.symm
  kind := kind?_relink.symm
  decl := decl?_relink.symm
  headers := headers_relink.symm
  before := children_relink_self hp
  after := hafter
  children _ hq := (children_relink_of_ne hq).symm
  alone := parent?_relink_self hc
  adopted := hadopted
  parent _ hq := (parent?_relink_of_ne hq).symm

/-- What a successful adoption has done. -/
theorem adoptAt_ok {position : Nat} (h : t.adoptAt p c position = .ok t') :
    c < t.size ∧ c ≠ p ∧ c ∉ t.ancestors p ∧
      ∃ u, Linked t p c ((t.children p).take position) ((t.children p).drop position) u ∧
        u.remembered? = t.remembered? ∧ t' = u.forgetAround p c := by
  simp only [adoptAt, Except.bind_eq_ok] at h
  obtain ⟨n, hn, h⟩ := h
  rw [node_eq_ok] at hn
  cases hparent : n.parent with
  | some current => simp [hparent, bind, Except.bind, throw, throwThe, MonadExceptOf.throw] at h
  | none =>
    simp only [hparent, Except.guard_eq_ok, Except.bind_eq_ok, not_or] at h
    obtain ⟨⟨hne, hnot⟩, m, hm, h⟩ := h
    rw [node_eq_ok] at hm
    split at h
    · exact absurd h Except.throw_ne_ok
    · next cs hcs =>
      rw [Except.guard_eq_ok, Except.pure_eq_ok] at h
      obtain ⟨hle, rfl⟩ := h
      have hchildren : t.children p = cs := by simp [children, hm, hcs]
      have halone : t.parent? c = none := by simp [parent?, hn, hparent]
      have hinsert := insertIdx_append c (cs.take position) (cs.drop position)
      rw [List.take_append_drop, List.length_take_of_le (Nat.not_lt.mp hle)] at hinsert
      have hkind : t.kind? c = some n.kind := by simp [kind?, hn]
      refine ⟨lt_size_of_kind? hkind, hne, hnot,
        t.relink p (cs.insertIdx position c) c (some p), ?_, remembered?_relink, rfl⟩
      rw [hinsert, hchildren]
      exact linked_relink hm hn (by rw [hchildren, List.take_append_drop]) halone

/-- A node that stands alone is adopted by a node that it is not above, at any position of its
child list. -/
theorem adoptAt_eq_ok {n m : CodeNode} {cs : List NodeId} {position : Nat} (hn : t.get? c = some n)
    (halone : n.parent = none) (hne : c ≠ p) (hnot : c ∉ t.ancestors p) (hm : t.get? p = some m)
    (hcs : m.children = some cs) (hle : position ≤ cs.length) :
    t.adoptAt p c position =
      .ok ((t.relink p (cs.insertIdx position c) c (some p)).forgetAround p c) := by
  have hn' : t.node c = .ok n := node_eq_ok.mpr hn
  have hm' : t.node p = .ok m := node_eq_ok.mpr hm
  simp [adoptAt, hn', hm', halone, hne, hnot, hcs, Nat.not_lt.mpr hle, bind, Except.bind, pure,
    Except.pure, relink]

/-- A node is taken from the child list that it is in. -/
theorem remove_eq_ok {n m : CodeNode} {cs : List NodeId} (hn : t.get? c = some n)
    (hm : t.get? p = some m) (hcs : m.children = some cs) (hmem : c ∈ cs) :
    t.remove p c = .ok ((t.relink p (cs.erase c) c none).forgetAround p c) := by
  have hn' : t.node c = .ok n := node_eq_ok.mpr hn
  have hm' : t.node p = .ok m := node_eq_ok.mpr hm
  simp [remove, hn', hm', hcs, hmem, bind, Except.bind, pure, Except.pure, relink]

/-- What a successful removal has done. -/
theorem remove_ok (hw : t.WellFormed) (h : t.remove p c = .ok t') :
    ∃ u front back, Linked u p c front back t ∧ u.remembered? = t.remembered? ∧
      t' = u.forgetAround p c := by
  simp only [remove, Except.bind_eq_ok] at h
  obtain ⟨n, hn, m, hm, h⟩ := h
  rw [node_eq_ok] at hn hm
  split at h
  · exact absurd h Except.throw_ne_ok
  · next cs hcs =>
    rw [Except.guard_eq_ok, Except.pure_eq_ok, not_not] at h
    obtain ⟨hmem, rfl⟩ := h
    have hchildren : t.children p = cs := by simp [children, hm, hcs]
    obtain ⟨front, back, -, hsplit, herase⟩ := List.exists_erase_eq hmem
    refine ⟨t.relink p (cs.erase c) c none, front, back, ?_, remembered?_relink, rfl⟩
    rw [herase]
    exact linked_relink_back hm hn (by rw [hchildren, hsplit])
      ((hw.child p c).mp (by rw [hchildren]; exact hmem))

/-! ### Changes of one node -/

theorem remembered?_modify {f : CodeNode → CodeNode} (h : ∀ n, (f n).cache = n.cache) :
    (t.modify id f).remembered? = t.remembered? := by
  funext q
  unfold remembered?
  rw [get?_modify]
  split
  · rw [Option.bind_map]
    exact congrArg (Option.bind _) (funext h)
  · rfl

/-- Two trees that write the same, about the same declarations, and hang together in the same
way. -/
structure SameShape (t t' : CodeTree) : Prop where
  kind : t'.kind? = t.kind?
  decl : t'.decl? = t.decl?
  parent : t'.parent? = t.parent?
  children : t'.children = t.children

theorem SameShape.trans {t'' : CodeTree} (h : SameShape t t') (h' : SameShape t' t'') :
    SameShape t t'' :=
  ⟨h'.kind.trans h.kind, h'.decl.trans h.decl, h'.parent.trans h.parent,
    h'.children.trans h.children⟩

/-- What a successful note of a header has done. -/
theorem addHeader_ok {header : String} (h : t.addHeader id header = .ok t') :
    SameShape t t' ∧ t'.size = t.size ∧ t'.remembered? = t.remembered? := by
  simp only [addHeader, Except.bind_eq_ok, Except.pure_eq_ok] at h
  obtain ⟨-, -, rfl⟩ := h
  refine ⟨⟨kind?_modify ?_, decl?_modify ?_, parent?_modify ?_, children_modify ?_⟩,
    size_modify _ _ _, remembered?_modify ?_⟩
  all_goals
    intro n
    split <;> rfl

/-- The tree in which a node writes something else. -/
def replaced (t : CodeTree) (id : NodeId) (kind : NodeKind) : CodeTree :=
  (t.forgetUp id).modify id fun n => { n with kind }

theorem size_replaced (t : CodeTree) (id : NodeId) (kind : NodeKind) :
    (t.replaced id kind).size = t.size := by
  unfold replaced
  rw [size_modify]
  exact (Alike.of_forgetAll (forgetAll_forgetUp t id)).size

theorem parent?_replaced (t : CodeTree) (id : NodeId) (kind : NodeKind) :
    (t.replaced id kind).parent? = t.parent? := by
  unfold replaced
  rw [parent?_modify]
  · exact (Alike.of_forgetAll (forgetAll_forgetUp t id)).parent
  · exact fun _ => rfl

theorem children_replaced (t : CodeTree) (id : NodeId) (kind : NodeKind) :
    (t.replaced id kind).children = t.children := by
  unfold replaced
  rw [children_modify]
  · exact (Alike.of_forgetAll (forgetAll_forgetUp t id)).children
  · exact fun _ => rfl

theorem decl?_replaced (t : CodeTree) (id : NodeId) (kind : NodeKind) :
    (t.replaced id kind).decl? = t.decl? := by
  unfold replaced
  rw [decl?_modify]
  · exact (Alike.of_forgetAll (forgetAll_forgetUp t id)).decl
  · exact fun _ => rfl

theorem kind?_replaced_of_ne (t : CodeTree) (kind : NodeKind) (hq : id ≠ q) :
    (t.replaced id kind).kind? q = t.kind? q := by
  unfold replaced kind?
  rw [get?_modify, if_neg hq]
  exact congrFun (Alike.of_forgetAll (forgetAll_forgetUp t id)).kind q

theorem kind?_replaced_self {n : CodeNode} (hn : t.get? id = some n) (kind : NodeKind) :
    (t.replaced id kind).kind? id = some kind := by
  have hk := congrFun (Alike.of_forgetAll (forgetAll_forgetUp t id)).kind id
  unfold replaced
  unfold kind? at hk ⊢
  rw [get?_modify, if_pos rfl, Option.map_map]
  rw [hn, Option.map_some, Option.map_eq_some_iff] at hk
  obtain ⟨m, hm, -⟩ := hk
  rw [hm]
  rfl

theorem replaceKind_eq_ok {kind : NodeKind} :
    t.replaceKind id kind = .ok t' ↔ (∃ n, t.get? id = some n) ∧ t.replaced id kind = t' := by
  simp only [CodeTree.replaceKind, Except.bind_eq_ok, Except.pure_eq_ok, node_eq_ok]
  exact ⟨fun ⟨n, hn, h⟩ => ⟨⟨n, hn⟩, h⟩, fun ⟨⟨n, hn⟩, h⟩ => ⟨n, hn, h⟩⟩

end Bindery.CodeTree
