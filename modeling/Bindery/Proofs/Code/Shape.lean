import Bindery.Code.Tree
import Bindery.Proofs.Computation
import Bindery.Proofs.ParentChain

/-!
# The shape of a code tree

What the nodes of a tree write and how they hang together does not depend on remembered texts.  In
a well-formed tree parents and child lists agree, so that what is below a node can be read off the
chains of parents.

## Main definitions

* `CodeTree.Alike` — two trees differ at most in remembered texts.
* `CodeTree.WellFormed` — parents and child lists agree, and following parents ends.

## Main results

* `forgetAll_forgetAround` and its neighbours — forgetting texts leaves the shape alone.
* `WellFormed.ancestors_eq`, `WellFormed.mem_descendants_iff` — the bounds on walks are not felt.
-/

namespace Bindery.CodeTree

variable {t t' : CodeTree} {id p c q : NodeId} {front back : List NodeId}

/-! ### Looking up nodes -/

@[simp] theorem size_modify (t : CodeTree) (id : NodeId) (f : CodeNode → CodeNode) :
    (t.modify id f).size = t.size := Array.size_modify

theorem get?_modify (t : CodeTree) (id : NodeId) (f : CodeNode → CodeNode) (q : NodeId) :
    (t.modify id f).get? q = if id = q then (t.get? q).map f else t.get? q := by
  unfold modify get?
  rw [Array.getElem?_modify]

section modify

variable {f : CodeNode → CodeNode}

theorem kind?_modify (h : ∀ n, (f n).kind = n.kind) : (t.modify id f).kind? = t.kind? := by
  funext q
  unfold kind?
  rw [get?_modify]
  split
  · rw [Option.map_map]
    exact congrArg (Option.map · _) (funext h)
  · rfl

theorem decl?_modify (h : ∀ n, (f n).decl = n.decl) : (t.modify id f).decl? = t.decl? := by
  funext q
  unfold decl?
  rw [get?_modify]
  split
  · rw [Option.bind_map]
    exact congrArg (Option.bind _) (funext h)
  · rfl

theorem parent?_modify (h : ∀ n, (f n).parent = n.parent) :
    (t.modify id f).parent? = t.parent? := by
  funext q
  unfold parent?
  rw [get?_modify]
  split
  · rw [Option.bind_map]
    exact congrArg (Option.bind _) (funext h)
  · rfl

theorem children_modify (h : ∀ n, (f n).children = n.children) :
    (t.modify id f).children = t.children := by
  funext q
  unfold children
  rw [get?_modify]
  split
  · rw [Option.bind_map]
    exact congrArg (fun g => (Option.bind _ g).getD []) (funext h)
  · rfl

theorem hasChildList_modify (h : ∀ n, (f n).children = n.children) :
    (t.modify id f).hasChildList = t.hasChildList := by
  funext q
  unfold hasChildList
  rw [get?_modify]
  split
  · rw [Option.any_map]
    exact congrArg (Option.any · _) (funext fun n => congrArg Option.isSome (h n))
  · rfl

end modify

theorem get?_create (t : CodeTree) (kind : NodeKind) (decl : Option DeclId) (q : NodeId) :
    (t.create kind decl).2.get? q =
      if q = t.size then
        some { kind, decl, children := if kind.isCompound then some [] else none }
      else t.get? q := Array.getElem?_push

theorem hasChildList_create (t : CodeTree) (kind : NodeKind) (decl : Option DeclId) (q : NodeId) :
    (t.create kind decl).2.hasChildList q =
      if q = t.size then kind.isCompound else t.hasChildList q := by
  unfold hasChildList
  rw [get?_create]
  split
  · cases kind.isCompound <;> rfl
  · rfl

theorem get?_eq_none_iff : t.get? id = none ↔ t.size ≤ id := Array.getElem?_eq_none_iff

theorem get?_forgetAll (t : CodeTree) (id : NodeId) :
    t.forgetAll.get? id = (t.get? id).map fun n => { n with cache := none } := by
  simp [forgetAll, get?]

theorem ext_get? (h : ∀ id, t.get? id = t'.get? id) : t = t' := by
  cases t
  cases t'
  congr 1
  exact Array.ext_getElem? h

theorem lt_size_of_parent? (h : t.parent? id = some p) : id < t.size := by
  by_contra hge
  rw [parent?, get?_eq_none_iff.mpr (Nat.not_lt.mp hge)] at h
  cases h

theorem lt_size_of_mem_children (h : c ∈ t.children p) : p < t.size := by
  by_contra hge
  rw [children, get?_eq_none_iff.mpr (Nat.not_lt.mp hge)] at h
  cases h

theorem lt_size_of_kind? {kind : NodeKind} (h : t.kind? id = some kind) : id < t.size := by
  by_contra hge
  rw [kind?, get?_eq_none_iff.mpr (Nat.not_lt.mp hge)] at h
  cases h

theorem lt_size_of_decl? {d : DeclId} (h : t.decl? id = some d) : id < t.size := by
  obtain ⟨n, hn, -⟩ := Option.bind_eq_some_iff.mp h
  exact (Array.getElem?_eq_some_iff.mp hn).1

theorem lt_size_of_hasChildList (h : t.hasChildList q) : q < t.size := by
  by_contra hge
  rw [hasChildList, get?_eq_none_iff.mpr (Nat.not_lt.mp hge)] at h
  cases h

theorem hasChildList_iff :
    t.hasChildList q ↔ ∃ n cs, t.get? q = some n ∧ n.children = some cs := by
  simp only [hasChildList, Option.any_eq_true, Option.isSome_iff_exists]
  exact ⟨fun ⟨n, hn, cs, hcs⟩ => ⟨n, cs, hn, hcs⟩, fun ⟨n, cs, hn, hcs⟩ => ⟨n, hn, cs, hcs⟩⟩

theorem children_eq {n : CodeNode} {cs : List NodeId} (hn : t.get? q = some n)
    (hcs : n.children = some cs) : t.children q = cs := by
  rw [children, hn, Option.bind_some, hcs]
  rfl

theorem hasChildList_of_mem_children (h : c ∈ t.children p) : t.hasChildList p := by
  rw [hasChildList_iff]
  cases hn : t.get? p with
  | none => simp [children, hn] at h
  | some n =>
    cases hcs : n.children with
    | none => simp [children, hn, hcs] at h
    | some cs => exact ⟨n, cs, rfl, hcs⟩

theorem isSome_kind?_iff : (t.kind? id).isSome ↔ id < t.size := by
  unfold kind?
  rw [Option.isSome_map, Option.isSome_iff_ne_none, Ne, get?_eq_none_iff, Nat.not_le]

/-! ### Remembered texts -/

@[simp] theorem kind?_forgetAll (t : CodeTree) : t.forgetAll.kind? = t.kind? := by
  funext id
  simp only [kind?, get?_forgetAll, Option.map_map]
  rfl

@[simp] theorem decl?_forgetAll (t : CodeTree) : t.forgetAll.decl? = t.decl? := by
  funext id
  simp only [decl?, get?_forgetAll, Option.bind_map]
  rfl

@[simp] theorem parent?_forgetAll (t : CodeTree) : t.forgetAll.parent? = t.parent? := by
  funext id
  simp only [parent?, get?_forgetAll, Option.bind_map]
  rfl

@[simp] theorem children_forgetAll (t : CodeTree) : t.forgetAll.children = t.children := by
  funext id
  simp only [children, get?_forgetAll, Option.bind_map]
  rfl

@[simp] theorem headers_forgetAll (t : CodeTree) : t.forgetAll.headers = t.headers := by
  funext id
  simp only [headers, get?_forgetAll, Option.map_map]
  rfl

@[simp] theorem hasChildList_forgetAll (t : CodeTree) :
    t.forgetAll.hasChildList = t.hasChildList := by
  funext q
  simp only [hasChildList, get?_forgetAll, Option.any_map]

@[simp] theorem size_forgetAll (t : CodeTree) : t.forgetAll.size = t.size := Array.size_map

@[simp] theorem forgetAll_forgetAll (t : CodeTree) : t.forgetAll.forgetAll = t.forgetAll := by
  apply ext_get?
  intro id
  simp only [get?_forgetAll, Option.map_map]
  rfl

theorem hasChildList_congr (h : t'.forgetAll = t.forgetAll) : t'.hasChildList = t.hasChildList := by
  rw [← hasChildList_forgetAll t', h, hasChildList_forgetAll]

/-- A change of remembered texts leaves the shape alone. -/
theorem forgetAll_modify {f : CodeNode → CodeNode}
    (h : ∀ n : CodeNode, { f n with cache := none } = { n with cache := none }) :
    (t.modify id f).forgetAll = t.forgetAll := by
  apply ext_get?
  intro q
  rw [get?_forgetAll, get?_forgetAll, get?_modify]
  split
  · rw [Option.map_map]
    congr 1
    funext n
    exact h n
  · rfl

@[simp] theorem forgetAll_forget (t : CodeTree) (id : NodeId) :
    (t.forget id).forgetAll = t.forgetAll := forgetAll_modify fun _ => rfl

@[simp] theorem forgetAll_forgetEach (t : CodeTree) (ids : List NodeId) :
    (t.forgetEach ids).forgetAll = t.forgetAll := by
  unfold forgetEach
  induction ids generalizing t with
  | nil => rfl
  | cons id ids ih => rw [List.foldl_cons, ih, forgetAll_forget]

@[simp] theorem forgetAll_forgetUp (t : CodeTree) (id : NodeId) :
    (t.forgetUp id).forgetAll = t.forgetAll := forgetAll_forgetEach _ _

@[simp] theorem forgetAll_forgetDown (t : CodeTree) (id : NodeId) :
    (t.forgetDown id).forgetAll = t.forgetAll := forgetAll_forgetEach _ _

@[simp] theorem forgetAll_forgetAround (t : CodeTree) (p c : NodeId) :
    (t.forgetAround p c).forgetAll = t.forgetAll := by
  unfold forgetAround
  split
  · exact forgetAll_forgetAll t
  · rw [forgetAll_forgetUp, forgetAll_forgetDown]

/-- Two trees that differ at most in remembered texts. -/
structure Alike (t t' : CodeTree) : Prop where
  size : t'.size = t.size
  kind : t'.kind? = t.kind?
  decl : t'.decl? = t.decl?
  headers : t'.headers = t.headers
  parent : t'.parent? = t.parent?
  children : t'.children = t.children

theorem alike_forgetAll (t : CodeTree) : Alike t t.forgetAll :=
  ⟨by simp, by simp, by simp, by simp, by simp, by simp⟩

theorem Alike.symm (h : Alike t t') : Alike t' t :=
  ⟨h.size.symm, h.kind.symm, h.decl.symm, h.headers.symm, h.parent.symm, h.children.symm⟩

theorem Alike.trans {t'' : CodeTree} (h : Alike t t') (h' : Alike t' t'') : Alike t t'' :=
  ⟨h'.size.trans h.size, h'.kind.trans h.kind, h'.decl.trans h.decl, h'.headers.trans h.headers,
    h'.parent.trans h.parent, h'.children.trans h.children⟩

/-- Trees that are the same without remembered texts have the same shape. -/
theorem Alike.of_forgetAll (h : t'.forgetAll = t.forgetAll) : Alike t t' :=
  (alike_forgetAll t).trans (h ▸ (alike_forgetAll t').symm)

theorem ancestors_congr (hp : t'.parent? = t.parent?) (hs : t'.size = t.size) :
    t'.ancestors = t.ancestors := by
  have hwithin : ∀ fuel id, t'.ancestorsWithin fuel id = t.ancestorsWithin fuel id := by
    intro fuel
    induction fuel with
    | zero => exact fun _ => rfl
    | succ fuel ih =>
      intro id
      simp only [ancestorsWithin, hp, ih]
  funext id
  rw [ancestors, ancestors, hs, hwithin]

/-! ### Well-formed trees -/

/-- Parents and child lists agree, no child is listed twice, and following parents ends. -/
structure WellFormed (t : CodeTree) : Prop where
  child : ∀ p c, c ∈ t.children p ↔ t.parent? c = some p
  nodup : ∀ p, (t.children p).Nodup
  climbs : ∀ id, ∃ l, Climbs t.parent? id l

theorem WellFormed.congr (h : t.WellFormed) (hp : t'.parent? = t.parent?)
    (hc : t'.children = t.children) : t'.WellFormed where
  child p c := by rw [hc, hp]; exact h.child p c
  nodup p := by rw [hc]; exact h.nodup p
  climbs id := by rw [hp]; exact h.climbs id

theorem wellFormed_empty : WellFormed {} where
  child _ _ := ⟨fun h => absurd h List.not_mem_nil, fun h => by cases h⟩
  nodup _ := List.nodup_nil
  climbs _ := ⟨[], rfl⟩

theorem WellFormed.parent_lt (h : t.WellFormed) (hp : t.parent? c = some p) : p < t.size :=
  lt_size_of_mem_children ((h.child p c).mpr hp)

theorem WellFormed.child_lt (h : t.WellFormed) (hc : c ∈ t.children p) : c < t.size :=
  lt_size_of_parent? ((h.child p c).mp hc)

/-- The chain above a node is shorter than the number of nodes. -/
theorem WellFormed.length_lt (h : t.WellFormed) {l : List NodeId} (hl : Climbs t.parent? id l)
    (hid : id < t.size) : l.length < t.size :=
  hl.length_lt hid fun _ hx => have ⟨_, _, hy⟩ := hl.mem_parent hx; h.parent_lt hy

theorem ancestorsWithin_of_climbs : ∀ {l : List NodeId} {id : NodeId}, Climbs t.parent? id l →
    ∀ fuel, t.ancestorsWithin fuel id = l.take fuel
  | _, _, _, 0 => by simp [ancestorsWithin]
  | [], _, h, fuel + 1 => by
    have h : t.parent? _ = none := h
    simp [ancestorsWithin, h]
  | p :: l, _, h, fuel + 1 => by
    rw [ancestorsWithin, h.1, List.take_succ_cons, ← ancestorsWithin_of_climbs h.2 fuel]

/-- The walk along parents reaches the end of every chain. -/
theorem WellFormed.ancestors_eq (h : t.WellFormed) {l : List NodeId}
    (hl : Climbs t.parent? id l) : t.ancestors id = l := by
  rw [ancestors, ancestorsWithin_of_climbs hl, List.take_of_length_le]
  rcases Nat.lt_or_ge id t.size with hid | hid
  · exact (h.length_lt hl hid).le
  · cases l with
    | nil => exact Nat.zero_le _
    | cons p l => exact absurd (lt_size_of_parent? hl.1) (Nat.not_lt.mpr hid)

theorem WellFormed.climbs_ancestors (h : t.WellFormed) (id : NodeId) :
    Climbs t.parent? id (t.ancestors id) := by
  obtain ⟨l, hl⟩ := h.climbs id
  rw [h.ancestors_eq hl]
  exact hl

/-- The ancestors of a node are its parent and the ancestors of that one. -/
theorem WellFormed.ancestors_child (h : t.WellFormed) (hc : c ∈ t.children p) :
    t.ancestors c = p :: t.ancestors p :=
  h.ancestors_eq ⟨(h.child p c).mp hc, h.climbs_ancestors p⟩

/-- What is above something above a node is above the node. -/
theorem WellFormed.mem_ancestors_trans (h : t.WellFormed) (hid : id ∈ t.ancestors c)
    (hc : c ∈ q :: t.ancestors q) : id ∈ t.ancestors q := by
  rcases List.mem_cons.mp hc with rfl | hc
  · exact hid
  · obtain ⟨front, l, heq, hl⟩ := (h.climbs_ancestors q).of_mem hc
    rw [heq, ← h.ancestors_eq hl]
    exact List.mem_append_right front (List.mem_cons_of_mem c hid)

/-- Of two things above a node one is above the other. -/
theorem WellFormed.above_total (h : t.WellFormed) (hc : c ∈ id :: t.ancestors id)
    (hq : q ∈ id :: t.ancestors id) : c ∈ q :: t.ancestors q ∨ q ∈ c :: t.ancestors c := by
  rcases (h.climbs_ancestors id).above_total hc hq with ⟨l, hl, hmem⟩ | ⟨l, hl, hmem⟩
  · exact .inl (by rw [h.ancestors_eq hl]; exact hmem)
  · exact .inr (by rw [h.ancestors_eq hl]; exact hmem)

theorem lt_size_of_climbs_ne_nil {l : List NodeId} (hl : Climbs t.parent? id l) (hne : l ≠ []) :
    id < t.size := by
  cases l with
  | nil => exact absurd rfl hne
  | cons p l => exact lt_size_of_parent? hl.1

theorem descendantsWithin_child {fuel : Nat} (hp : p ∈ t.descendantsWithin fuel id)
    (hc : c ∈ t.children p) : c ∈ t.descendantsWithin (fuel + 1) id := by
  induction fuel generalizing id with
  | zero =>
    obtain rfl := List.mem_singleton.mp hp
    exact List.mem_cons_of_mem p (List.mem_flatMap.mpr ⟨c, hc, List.mem_singleton.mpr rfl⟩)
  | succ fuel ih =>
    rcases List.mem_cons.mp hp with rfl | hp
    · exact List.mem_cons_of_mem p (List.mem_flatMap.mpr ⟨c, hc, List.mem_cons_self⟩)
    · obtain ⟨d, hd, hp⟩ := List.mem_flatMap.mp hp
      exact List.mem_cons_of_mem id (List.mem_flatMap.mpr ⟨d, hd, ih hp⟩)

theorem descendantsWithin_mono {fuel fuel' : Nat} (hle : fuel ≤ fuel') (id : NodeId) :
    t.descendantsWithin fuel id ⊆ t.descendantsWithin fuel' id := by
  induction fuel generalizing fuel' id with
  | zero =>
    intro q hq
    rw [List.mem_singleton.mp hq]
    cases fuel' <;> exact List.mem_cons_self
  | succ fuel ih =>
    obtain ⟨fuel', rfl⟩ : ∃ k, fuel' = k + 1 := ⟨fuel' - 1, by omega⟩
    intro q hq
    rcases List.mem_cons.mp hq with rfl | hq
    · exact List.mem_cons_self
    · obtain ⟨c, hc, hq⟩ := List.mem_flatMap.mp hq
      exact List.mem_cons_of_mem id (List.mem_flatMap.mpr ⟨c, hc, ih (by omega) c hq⟩)

/-- A node is found at the depth at which it stands. -/
theorem WellFormed.mem_descendantsWithin (h : t.WellFormed) {rest : List NodeId} :
    ∀ {front : List NodeId} {q : NodeId}, Climbs t.parent? q (front ++ id :: rest) →
      q ∈ t.descendantsWithin (front.length + 1) id
  | [], q, hq => by
    have hself : id ∈ t.descendantsWithin 0 id := List.mem_cons_self
    exact descendantsWithin_child hself ((h.child id q).mpr hq.1)
  | p :: _, q, hq => descendantsWithin_child (h.mem_descendantsWithin hq.2) ((h.child p q).mpr hq.1)

/-- A node and what is below it, read off the chains of parents. -/
theorem WellFormed.mem_descendants_iff (h : t.WellFormed) :
    q ∈ t.descendants id ↔ q = id ∨ id ∈ t.ancestors q := by
  constructor
  · have hwithin : ∀ fuel id, q ∈ t.descendantsWithin fuel id → q = id ∨ id ∈ t.ancestors q := by
      intro fuel
      induction fuel with
      | zero => exact fun id hq => .inl (List.mem_singleton.mp hq)
      | succ fuel ih =>
        intro id hq
        rcases List.mem_cons.mp hq with rfl | hq
        · exact .inl rfl
        · obtain ⟨c, hc, hq⟩ := List.mem_flatMap.mp hq
          right
          rcases ih c hq with rfl | hmem
          · rw [h.ancestors_child hc]
            exact List.mem_cons_self
          · have hid : id ∈ t.ancestors c := by
              rw [h.ancestors_child hc]
              exact List.mem_cons_self
            exact h.mem_ancestors_trans hid (List.mem_cons_of_mem q hmem)
    exact hwithin t.size id
  · rintro (rfl | hmem)
    · unfold descendants
      cases t.size <;> simp [descendantsWithin]
    · -- the chain from `q` up to `id` is shorter than the tree is large
      obtain ⟨front, l, heq, -⟩ := (h.climbs_ancestors q).of_mem hmem
      have hclimbs := h.climbs_ancestors q
      have hlen := h.length_lt hclimbs (lt_size_of_climbs_ne_nil hclimbs (List.ne_nil_of_mem hmem))
      rw [heq] at hclimbs hlen
      rw [List.length_append, List.length_cons] at hlen
      exact descendantsWithin_mono (by omega) id (h.mem_descendantsWithin hclimbs)

end Bindery.CodeTree
