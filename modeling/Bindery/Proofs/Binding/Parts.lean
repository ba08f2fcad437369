import Bindery.Proofs.Binding.Moves
import Bindery.Proofs.Code.Coherence
import Bindery.Proofs.Code.PreOrder

/-!
# Modules, bodies and classes in the tree

Of the nodes of a tree only three sorts decide where classes stand: the module, its body, and the
registrations of classes.  Their arrangement is the skeleton of the tree.  Nodes of all other
sorts come without changing it.

## Main definitions

* `Part`, `CodeTree.part?`, `CodeTree.parts` — nodes of the three sorts, and those below a node.
* `SameParts t t'` — two trees with one skeleton.
* `Still t t'` — two trees with the same nodes in the same arrangement.
* `Plain` — a step that leaves the skeleton alone.

## Main results

* `Placed` and its lemmas — a new node, put into the tree, and what it does to the skeleton.
* `placedAs_of_adoptAt` — what a successful adoption of a new node has done.
* `plain_place` — nodes of other sorts are plain.
-/

namespace Bindery

/-- What a node is in the skeleton of a tree. -/
inductive Part
  | module
  | body
  | cls (decl : DeclId)
  deriving DecidableEq, Repr

/-- What a node that writes this, about this declaration, is in the skeleton. -/
def NodeKind.part? (decl : Option DeclId) : NodeKind → Option Part
  | .module _ => some .module
  | .moduleBody _ => some .body
  | .cls _ => decl.map .cls
  | _ => none

namespace CodeTree

variable {t t' t'' u : CodeTree} {p c q : NodeId} {front back : List NodeId}

/-- What a node is in the skeleton. -/
def part? (t : CodeTree) (q : NodeId) : Option Part := (t.kind? q).bind (·.part? (t.decl? q))

/-- The children of a node that are in the skeleton. -/
def parts (t : CodeTree) (q : NodeId) : List NodeId :=
  (t.children q).filter fun c => (t.part? c).isSome

theorem parts_congr (hk : t'.part? = t.part?) (hc : t'.children q = t.children q) :
    t'.parts q = t.parts q := by
  unfold parts
  rw [hk, hc]

theorem mem_parts : c ∈ t.parts q ↔ c ∈ t.children q ∧ (t.part? c).isSome := List.mem_filter

/-- Two well-formed trees with the same nodes in the skeleton, in the same arrangement. -/
structure SameParts (t t' : CodeTree) : Prop where
  wellFormed : t.WellFormed → t'.WellFormed
  part : t'.part? = t.part?
  parts : t'.parts = t.parts

theorem SameParts.refl (t : CodeTree) : SameParts t t := ⟨id, rfl, rfl⟩

theorem SameParts.trans (h : SameParts t t') (h' : SameParts t' t'') : SameParts t t'' :=
  ⟨h'.wellFormed ∘ h.wellFormed, h'.part.trans h.part, h'.parts.trans h.parts⟩

/-- Two trees with the same nodes in the same arrangement.  Registrations of classes may have
changed, but not the names that the classes have in Python. -/
structure Still (t t' : CodeTree) : Prop where
  kind : ∀ q, t'.kind? q = t.kind? q ∨ ∃ old new, t.kind? q = some (.cls old) ∧
    t'.kind? q = some (.cls new) ∧ new.pythonName = old.pythonName
  decl : t'.decl? = t.decl?
  parent : t'.parent? = t.parent?
  children : t'.children = t.children

theorem Still.refl (t : CodeTree) : Still t t := ⟨fun _ => .inl rfl, rfl, rfl, rfl⟩

theorem Still.of_shape (h : SameShape t t') : Still t t' :=
  ⟨fun q => .inl (congrFun h.kind q), h.decl, h.parent, h.children⟩

/-- The registration of a class may be replaced by another. -/
theorem Still.of_replaced {n : CodeNode} {old new : ClassNode} (hn : t.get? q = some n)
    (hold : t.kind? q = some (.cls old)) (hname : new.pythonName = old.pythonName) :
    Still t (t.replaced q (.cls new)) := by
  refine ⟨fun r => ?_, decl?_replaced t q _, parent?_replaced t q _, children_replaced t q _⟩
  by_cases hr : q = r
  · subst hr
    exact .inr ⟨old, new, hold, kind?_replaced_self hn _, hname⟩
  · exact .inl (kind?_replaced_of_ne t _ hr)

theorem SameParts.of_still (h : Still t t') : SameParts t t' := by
  have hpart : t'.part? = t.part? := by
    funext q
    unfold part?
    rw [h.decl]
    rcases h.kind q with hk | ⟨old, new, hold, hnew, -⟩
    · rw [hk]
    · rw [hold, hnew]
      rfl
  exact ⟨fun hw => hw.congr h.parent h.children, hpart,
    funext fun q => parts_congr hpart (congrFun h.children q)⟩

/-- Trees that write the same and hang together in the same way have one skeleton. -/
theorem SameParts.of_shape (h : SameShape t t') : SameParts t t' := of_still (Still.of_shape h)

/-! ### New nodes -/

/-- A new node has been put into the child list of `p`. -/
structure Placed (t : CodeTree) (p : NodeId) (kind : NodeKind) (decl : Option DeclId)
    (front back : List NodeId) (t' : CodeTree) : Prop where
  wellFormed : t.WellFormed → t'.WellFormed
  old : p ≠ t.size
  part : ∀ q, t'.part? q = if q = t.size then kind.part? decl else t.part? q
  before : t.children p = front ++ back
  after : t'.children p = front ++ t.size :: back
  children : ∀ q, q ≠ p → t'.children q = t.children q

/-- A new node has been put into the child list of `p`, and all nodes write what they wrote. -/
structure PlacedAs (t : CodeTree) (p : NodeId) (kind : NodeKind) (decl : Option DeclId)
    (front back : List NodeId) (t' : CodeTree) : Prop
    extends Placed t p kind decl front back t' where
  kinds : ∀ q, t'.kind? q = if q = t.size then some kind else t.kind? q
  decls : ∀ q, t'.decl? q = if q = t.size then decl else t.decl? q
  headers : t'.headers = t.headers
  unwritten : t.Unwritten → t'.Unwritten

theorem decl?_create (t : CodeTree) (kind : NodeKind) (decl : Option DeclId) (q : NodeId) :
    (t.create kind decl).2.decl? q = if q = t.size then decl else t.decl? q := by
  unfold decl?
  rw [get?_create]
  split <;> rfl

theorem part?_create (t : CodeTree) (kind : NodeKind) (decl : Option DeclId) (q : NodeId) :
    (t.create kind decl).2.part? q = if q = t.size then kind.part? decl else t.part? q := by
  unfold part? kind? decl?
  rw [get?_create]
  split <;> rfl

/-- A new node needs no headers, and neither does one that is still to come. -/
theorem headers_create (t : CodeTree) (kind : NodeKind) (decl : Option DeclId) :
    (t.create kind decl).2.headers = t.headers := by
  funext q
  unfold headers
  rw [get?_create]
  split
  · next hq => rw [hq, get?_eq_none_iff.mpr (Nat.le_refl _)]; rfl
  · rfl

/-- A node that is still to come is nothing in the skeleton. -/
theorem part?_size (t : CodeTree) : t.part? t.size = none := by
  unfold part? kind?
  rw [get?_eq_none_iff.mpr (Nat.le_refl _)]
  rfl

/-- What a successful adoption of a new node has done. -/
theorem placedAs_of_adoptAt {kind : NodeKind} {decl : Option DeclId} {position : Nat}
    (h : (t.create kind decl).2.adoptAt p t.size position = .ok t') :
    PlacedAs t p kind decl ((t.children p).take position) ((t.children p).drop position) t' := by
  obtain ⟨-, hne, hnot, u, hlinked, hremembered, rfl⟩ := adoptAt_ok h
  have hl := hlinked.congr_right (Alike.of_forgetAll (forgetAll_forgetAround u p t.size))
  have hchildren := children_create t kind decl
  rw [hchildren] at hl
  refine ⟨⟨fun hw => hl.wellFormed (hw.create kind decl) hne hnot, Ne.symm hne, fun q => ?_,
    (List.take_append_drop position _).symm, hl.after, fun q hq => ?_⟩, fun q => ?_, fun q => ?_,
    hl.headers.trans (headers_create t kind decl),
    fun hu => ((hu.create kind decl).congr hremembered).forgetAround p t.size⟩
  · rw [← part?_create]
    unfold part?
    rw [hl.kind, hl.decl]
  · rw [hl.children q hq, hchildren]
  · rw [hl.kind, kind?_create]
  · rw [hl.decl, decl?_create]

theorem placed_of_adoptAt {kind : NodeKind} {decl : Option DeclId} {position : Nat}
    (h : (t.create kind decl).2.adoptAt p t.size position = .ok t') :
    Placed t p kind decl ((t.children p).take position) ((t.children p).drop position) t' :=
  (placedAs_of_adoptAt h).toPlaced

theorem placedAs_of_adopt {kind : NodeKind} {decl : Option DeclId}
    (h : (t.create kind decl).2.adopt p t.size = .ok t') :
    PlacedAs t p kind decl (t.children p) [] t' := by
  unfold adopt at h
  rw [children_create] at h
  have hplaced := placedAs_of_adoptAt h
  rwa [List.take_length, List.drop_length] at hplaced

theorem placed_of_adopt {kind : NodeKind} {decl : Option DeclId}
    (h : (t.create kind decl).2.adopt p t.size = .ok t') :
    Placed t p kind decl (t.children p) [] t' := (placedAs_of_adopt h).toPlaced

/-! ### Nodes that stay -/

/-- Nodes have come, and those that were there have kept what they are about and what they write:
only registrations of classes may have changed, but not the names that the classes have in
Python. -/
structure Grown (t t' : CodeTree) : Prop where
  wellFormed : t.WellFormed → t'.WellFormed
  kind : ∀ q kind, t.kind? q = some kind → t'.kind? q = some kind ∨
    ∃ old new, kind = .cls old ∧ t'.kind? q = some (.cls new) ∧ new.pythonName = old.pythonName
  decl : ∀ q, (t.kind? q).isSome → t'.decl? q = t.decl? q
  child : ∀ q c, c ∈ t.children q → c ∈ t'.children q

theorem Grown.isSome_kind (h : Grown t t') (hq : (t.kind? q).isSome) : (t'.kind? q).isSome := by
  obtain ⟨kind, hkind⟩ := Option.isSome_iff_exists.mp hq
  rcases h.kind q kind hkind with hk | ⟨old, new, -, hk, -⟩ <;> rw [hk] <;> rfl

/-- Only registrations of classes change. -/
theorem Grown.kind_of_ne (h : Grown t t') {kind : NodeKind} (hkind : t.kind? q = some kind)
    (hne : ∀ c, kind ≠ .cls c) : t'.kind? q = some kind :=
  (h.kind q kind hkind).resolve_right fun ⟨c, _, hcls, _⟩ => hne c hcls

theorem Grown.trans (h : Grown t t') (h' : Grown t' t'') : Grown t t'' where
  wellFormed := h'.wellFormed ∘ h.wellFormed
  kind q kind hkind := by
    rcases h.kind q kind hkind with hk | ⟨old, new, rfl, hk, hname⟩
    · exact h'.kind q kind hk
    · rcases h'.kind q _ hk with hk' | ⟨old', new', hold, hk', hname'⟩
      · exact .inr ⟨old, new, rfl, hk', hname⟩
      · cases hold
        exact .inr ⟨old, new', rfl, hk', hname'.trans hname⟩
  decl q hq := (h'.decl q (h.isSome_kind hq)).trans (h.decl q hq)
  child q c hc := h'.child q c (h.child q c hc)

theorem Grown.of_still (h : Still t t') : Grown t t' where
  wellFormed := (SameParts.of_still h).wellFormed
  kind q kind hkind := by
    rcases h.kind q with hk | ⟨old, new, hold, hnew, hname⟩
    · exact .inl (hk.trans hkind)
    · rw [hold] at hkind
      cases hkind
      exact .inr ⟨old, new, rfl, hnew, hname⟩
  decl q _ := by rw [h.decl]
  child q c hc := by rwa [h.children]

theorem Grown.refl (t : CodeTree) : Grown t t := of_still (Still.refl t)

/-- What was below a node stays below it. -/
theorem Grown.descendants_subset (h : Grown t t') (hw : t.WellFormed) (r : NodeId) :
    t.descendants r ⊆ t'.descendants r := by
  intro a ha
  rw [hw.mem_descendants_iff_reflTransGen] at ha
  rw [(h.wellFormed hw).mem_descendants_iff_reflTransGen]
  exact Relation.ReflTransGen.mono h.child r a ha

theorem PlacedAs.grown {kind : NodeKind} {decl : Option DeclId}
    (h : PlacedAs t p kind decl front back t') : Grown t t' where
  wellFormed := h.wellFormed
  kind q k hk := by
    rw [h.kinds, if_neg (lt_size_of_kind? hk).ne]
    exact .inl hk
  decl q hq := by
    obtain ⟨k, hk⟩ := Option.isSome_iff_exists.mp hq
    rw [h.decls, if_neg (lt_size_of_kind? hk).ne]
  child q c hc := by
    by_cases hqp : q = p
    · subst hqp
      rw [h.before, List.mem_append] at hc
      rw [h.after, List.mem_append, List.mem_cons]
      exact hc.imp_right .inr
    · rwa [h.children q hqp]

namespace Placed

variable {kind : NodeKind} {decl : Option DeclId}

/-- A new node of another sort leaves the skeleton alone. -/
theorem sameParts (h : Placed t p kind decl front back t') (hkind : kind.part? decl = none) :
    SameParts t t' := by
  have hsize : t.part? t.size = none := part?_size t
  have hpart : t'.part? = t.part? := by
    funext q
    rw [h.part]
    split
    · next hq => rw [hq, hkind, hsize]
    · rfl
  refine ⟨h.wellFormed, hpart, funext fun q => ?_⟩
  by_cases hq : q = p
  · subst hq
    unfold parts
    rw [hpart, h.after, h.before, List.filter_append, List.filter_append,
      List.filter_cons_of_neg (by rw [hsize]; exact Bool.false_ne_true)]
  · exact parts_congr hpart (h.children q hq)

theorem part_self (h : Placed t p kind decl front back t') :
    t'.part? t.size = kind.part? decl := by
  rw [h.part, if_pos rfl]

theorem part_of_some (h : Placed t p kind decl front back t') {part : Part}
    (hq : t.part? q = some part) : t'.part? q = some part := by
  have hne : q ≠ t.size := by
    rintro rfl
    rw [part?_size] at hq
    cases hq
  rw [h.part, if_neg hne, hq]

/-- In a well-formed tree no child list mentions a node that is still to come. -/
private theorem filter_part (h : Placed t p kind decl front back t') {l : List NodeId}
    (hl : t.size ∉ l) : l.filter (fun c => (t'.part? c).isSome) =
      l.filter fun c => (t.part? c).isSome := by
  apply List.filter_congr
  intro c hc
  have hne : c ≠ t.size := fun hcs => hl (hcs ▸ hc)
  rw [h.part, if_neg hne]

theorem not_mem_children (hw : t.WellFormed) (q : NodeId) : t.size ∉ t.children q :=
  fun hmem => Nat.lt_irrefl _ (hw.child_lt hmem)

/-- Where the new node does not go, the skeleton stays. -/
theorem parts_of_ne (h : Placed t p kind decl front back t') (hw : t.WellFormed) (hq : q ≠ p) :
    t'.parts q = t.parts q := by
  unfold parts
  rw [h.children q hq, h.filter_part (not_mem_children hw q)]

/-- A new node of the skeleton stands where it was put. -/
theorem parts_self (h : Placed t p kind decl front back t') (hw : t.WellFormed)
    (hkind : (kind.part? decl).isSome) :
    t'.parts p = front.filter (fun c => (t.part? c).isSome) ++
      t.size :: back.filter fun c => (t.part? c).isSome := by
  have hmem := not_mem_children hw p
  rw [h.before, List.mem_append, not_or] at hmem
  unfold parts
  rw [h.after, List.filter_append, List.filter_cons_of_pos (by rw [h.part_self]; exact hkind),
    h.filter_part hmem.1, h.filter_part hmem.2]

/-- A new node has nothing below it. -/
theorem parts_new (h : Placed t p kind decl front back t') : t'.parts t.size = [] := by
  unfold parts
  rw [h.children _ (Ne.symm h.old)]
  unfold CodeTree.children
  rw [get?_eq_none_iff.mpr (Nat.le_refl _)]
  rfl

end Placed

end CodeTree

/-! ### Before anything is bound -/

/-- The nodes that stand in front of the body of a module from the beginning. -/
def NodeKind.isPreamble : NodeKind → Bool
  | license _ | «include» _ | namespaceAlias _ => true
  | _ => false

theorem NodeKind.part?_of_isPreamble {kind : NodeKind} (h : kind.isPreamble)
    (decl : Option DeclId) : kind.part? decl = none := by
  cases kind with
  | module | moduleBody | cls => cases h
  | _ => rfl

namespace CodeTree

variable {t t' : CodeTree}

theorem append_ok {kind : NodeKind} (h : t.append kind = .ok t') :
    PlacedAs t root kind none (t.children root) [] t' := by
  unfold CodeTree.append at h
  exact placedAs_of_adopt h

/-- The alias of the namespace of the binding library, unless its name is empty. -/
def libraryAlias (nspace : String) : Option NamespaceAlias :=
  if nspace.isEmpty then none else some ⟨nspace, bindingLibrary⟩

/-- The tree of a module consists of the module, the license, the header of the binding library, the
alias of its namespace, and the body. -/
theorem ofModule_begins {P : List NodeKind → CodeTree → Prop} {name nspace : String}
    {license : Option String} (hstart : P [] (ofKind (.module name)))
    (hstep : ∀ {kinds t t' kind}, NodeKind.isPreamble kind → P kinds t → t.append kind = .ok t' →
      P (kinds ++ [kind]) t')
    (h : CodeTree.ofModule name license nspace = .ok t) :
    ∃ t₀, P (license.toList.map .license ++ [.include "boost/python.hpp"] ++
        (libraryAlias nspace).toList.map .namespaceAlias) t₀ ∧
      t₀.append (.moduleBody name) = .ok t := by
  -- the alias of the namespace comes or is left out, and then the body comes
  have hlast : ∀ {kinds t₂}, P kinds t₂ → (do
      let t ← if nspace.isEmpty then pure t₂
        else t₂.append (.namespaceAlias ⟨nspace, bindingLibrary⟩)
      t.append (.moduleBody name)) = .ok t →
      ∃ t₀, P (kinds ++ (libraryAlias nspace).toList.map .namespaceAlias) t₀ ∧
        t₀.append (.moduleBody name) = .ok t := by
    intro kinds t₂ h₂ h
    unfold libraryAlias
    dsimp only at h
    split at h
    · next hempty =>
      rw [if_pos hempty]
      exact ⟨t₂, (List.append_nil kinds).symm ▸ h₂, h⟩
    · next hsome =>
      rw [if_neg hsome]
      obtain ⟨t₃, halias, h⟩ := Except.bind_eq_ok.mp h
      exact ⟨t₃, hstep rfl h₂ halias, h⟩
  unfold CodeTree.ofModule at h
  cases license with
  | some text =>
    obtain ⟨t₁, hlicense, h⟩ := Except.bind_eq_ok.mp h
    obtain ⟨t₂, hinclude, h⟩ := Except.bind_eq_ok.mp h
    exact hlast (hstep rfl (hstep rfl hstart hlicense) hinclude) h
  | none =>
    obtain ⟨t₁, hnone, h⟩ := Except.bind_eq_ok.mp h
    cases hnone
    obtain ⟨t₂, hinclude, h⟩ := Except.bind_eq_ok.mp h
    exact hlast (hstep rfl hstart hinclude) h

/-- What holds of the module alone, and goes on to hold when something is put in front of the
body, holds until the body comes. -/
theorem ofModule_ok {P : CodeTree → Prop} {name nspace : String} {license : Option String}
    (hstart : P (ofKind (.module name)))
    (hstep : ∀ {t t' kind}, NodeKind.isPreamble kind → P t → t.append kind = .ok t' → P t')
    (h : CodeTree.ofModule name license nspace = .ok t) :
    ∃ t₀, P t₀ ∧ t₀.append (.moduleBody name) = .ok t :=
  ofModule_begins (P := fun _ => P) hstart hstep h

/-- At first there are but the module, what stands in front of its body, and the body. -/
theorem kind?_ofModule {name nspace : String} {license : Option String}
    (h : CodeTree.ofModule name license nspace = .ok t) {n : NodeId} {kind : NodeKind}
    (hkind : t.kind? n = some kind) :
    kind = .module name ∨ kind.isPreamble ∨ kind = .moduleBody name := by
  let P : CodeTree → Prop := fun t => ∀ n kind, t.kind? n = some kind →
    kind = .module name ∨ kind.isPreamble
  have hstart : P (ofKind (.module name)) := by
    intro n kind hkind
    rw [show (ofKind (.module name)).kind? n = _ from kind?_create {} (.module name) none n]
      at hkind
    split at hkind <;> cases hkind
    exact .inl rfl
  have hstep : ∀ {t t' : CodeTree} {kind : NodeKind}, kind.isPreamble → P t →
      t.append kind = .ok t' → P t' := by
    intro t t' kind hpreamble ht happend n k hk
    rw [(append_ok happend).kinds] at hk
    split at hk
    · exact .inr (Option.some.inj hk ▸ hpreamble)
    · exact ht n k hk
  obtain ⟨t₀, ht₀, hlast⟩ := ofModule_ok hstart hstep h
  rw [(append_ok hlast).kinds] at hkind
  split at hkind
  · exact .inr (.inr (Option.some.inj hkind).symm)
  · exact (ht₀ n kind hkind).imp_right .inl

end CodeTree

/-! ### Plain steps -/

/-- A step that leaves the skeleton alone. -/
def Plain (b b' : Binder) : Prop := b.tree.SameParts b'.tree

instance : StepRelation Plain where
  of_tree_eq {b b'} h := by
    unfold Plain
    rw [h]
    exact CodeTree.SameParts.refl b.tree
  trans h h' := h.trans h'

namespace Binding

open CodeTree

variable {α β : Type}

theorem plain_place {parent : NodeId} {kind : NodeKind} {decl : Option DeclId}
    (hkind : kind.part? decl = none) : Moves Plain (place parent kind decl) := by
  intro b id b' h
  obtain ⟨rfl, t, ht, rfl⟩ := place_ok h
  exact (placed_of_adopt ht).sameParts hkind

end Binding

end Bindery
