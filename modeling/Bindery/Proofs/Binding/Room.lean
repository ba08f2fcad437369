import Bindery.Proofs.Binding.Parts
import Bindery.Proofs.Code.Changes

/-!
# Edits that succeed

A node that has just been made can be put below any node that has a child list, at any position that
the list has.  Nothing that is done to a tree while a module is bound takes a child list away or
makes one shorter, so that a position that was once there stays there.

## Main definitions

* `CodeTree.Roomier t t'` — `t'` is well-formed and has all the room for children that `t` has.

## Main results

* `WellFormed.exists_adoptAt` — **a new node is adopted where there is room for it.**
* `exists_addInclude`, `exists_adoptBeforeBody`, `exists_replaceKind`, `exists_addHeader` — the
  other edits of a binding.
* `exists_ofModule` — the tree that a module begins with, which has a body with room.
-/

namespace Bindery.CodeTree

variable {t t' t'' : CodeTree} {p c q : NodeId} {kind : NodeKind} {decl : Option DeclId}

/-! ### Room for children -/

/-- The tree is well-formed and has all nodes of the other one, with as much room below each. -/
structure Roomier (t t' : CodeTree) : Prop where
  wellFormed : t'.WellFormed
  size : t.size ≤ t'.size
  room : ∀ q, t.hasChildList q → t'.hasChildList q
  length : ∀ q, (t.children q).length ≤ (t'.children q).length

theorem Roomier.refl (hw : t.WellFormed) : Roomier t t :=
  ⟨hw, Nat.le_refl _, fun _ => id, fun _ => Nat.le_refl _⟩

theorem Roomier.trans (h : Roomier t t') (h' : Roomier t' t'') : Roomier t t'' where
  wellFormed := h'.wellFormed
  size := h.size.trans h'.size
  room q hq := h'.room q (h.room q hq)
  length q := (h.length q).trans (h'.length q)

/-! ### Adoption -/

theorem size_create (t : CodeTree) (kind : NodeKind) (decl : Option DeclId) :
    (t.create kind decl).2.size = t.size + 1 := Array.size_push _

/-- A new node has been put below `p`, which has one child more. -/
structure Adopted (t : CodeTree) (p : NodeId) (kind : NodeKind) (t' : CodeTree) : Prop
    extends Roomier t t' where
  fresh : t.size < t'.size
  newRoom : kind.isCompound → t'.hasChildList t.size
  newChild : (t.children p).length < (t'.children p).length

theorem Placed.adopted {front back : List NodeId} (h : Placed t p kind decl front back t')
    (hw : t.WellFormed) (hsize : t'.size = t.size + 1)
    (hroom : ∀ q, (t.create kind decl).2.hasChildList q → t'.hasChildList q) :
    Adopted t p kind t' where
  wellFormed := h.wellFormed hw
  size := hsize ▸ Nat.le_succ t.size
  room q hq := by
    refine hroom q ?_
    rw [hasChildList_create, if_neg (lt_size_of_hasChildList hq).ne]
    exact hq
  length q := by
    by_cases hqp : q = p
    · subst hqp
      rw [h.before, h.after, List.length_append, List.length_append, List.length_cons]
      omega
    · rw [h.children q hqp]
  fresh := hsize ▸ Nat.lt_succ_self t.size
  newRoom hkind := by
    refine hroom t.size ?_
    rw [hasChildList_create, if_pos rfl]
    exact hkind
  newChild := by
    rw [h.before, h.after, List.length_append, List.length_append, List.length_cons]
    omega

/-- **A new node is adopted wherever there is room for it.** -/
theorem WellFormed.exists_adoptAt (hw : t.WellFormed) (hp : t.hasChildList p) {position : Nat}
    (hle : position ≤ (t.children p).length) (kind : NodeKind) (decl : Option DeclId) :
    ∃ t', (t.create kind decl).2.adoptAt p t.size position = .ok t' ∧ Adopted t p kind t' := by
  have hlt := lt_size_of_hasChildList hp
  have hw' := hw.create kind decl
  have hget : (t.create kind decl).2.get? t.size =
      some { kind, decl, children := if kind.isCompound then some [] else none } := by
    rw [get?_create, if_pos rfl]
  -- a new node has no children, so that nothing is below it
  have hnot : t.size ∉ (t.create kind decl).2.ancestors p := by
    intro hmem
    obtain ⟨c, -, hc⟩ := (hw'.climbs_ancestors p).mem_parent hmem
    have hchild := (hw'.child t.size c).mpr hc
    rw [children_create] at hchild
    exact Nat.lt_irrefl _ (lt_size_of_mem_children hchild)
  obtain ⟨m, hm, cs, hcs⟩ : ∃ m, t.get? p = some m ∧ ∃ cs, m.children = some cs := by
    unfold hasChildList at hp
    cases hm : t.get? p with
    | none =>
      rw [hm] at hp
      cases hp
    | some m =>
      rw [hm] at hp
      exact ⟨m, rfl, Option.isSome_iff_exists.mp hp⟩
  have hchildren : t.children p = cs := by simp [children, hm, hcs]
  have hm' : (t.create kind decl).2.get? p = some m := by
    rw [get?_create, if_neg hlt.ne, hm]
  have hok := adoptAt_eq_ok hget rfl (Ne.symm hlt.ne) hnot hm' hcs (hchildren ▸ hle)
  have hforget := forgetAll_forgetAround
    ((t.create kind decl).2.relink p (cs.insertIdx position t.size) t.size (some p)) p t.size
  refine ⟨_, hok, (placed_of_adoptAt hok).adopted hw ?_ fun q hq => ?_⟩
  · rw [(Alike.of_forgetAll hforget).size, size_relink, size_create]
  · rw [hasChildList_congr hforget]
    exact hasChildList_relink hq

theorem WellFormed.exists_adopt (hw : t.WellFormed) (hp : t.hasChildList p) (kind : NodeKind)
    (decl : Option DeclId) :
    ∃ t', (t.create kind decl).2.adopt p t.size = .ok t' ∧ Adopted t p kind t' := by
  unfold adopt
  rw [children_create]
  exact hw.exists_adoptAt hp (Nat.le_refl _) kind decl

/-! ### Other edits -/

/-- The module adopts a new node in front of its body. -/
theorem WellFormed.exists_adoptBeforeBody (hw : t.WellFormed) (hroot : t.hasChildList root)
    (kind : NodeKind) (decl : Option DeclId) :
    ∃ t', (t.create kind decl).2.adoptBeforeBody t.size = .ok t' ∧ Adopted t root kind t' := by
  unfold adoptBeforeBody
  rw [children_create]
  exact hw.exists_adoptAt hroot (List.takeWhile_sublist _).length_le kind decl

/-- The module includes a header. -/
theorem WellFormed.exists_addInclude (hw : t.WellFormed) (hroot : t.hasChildList root)
    (header : String) : ∃ t', t.addInclude header = (.ok (), t') ∧ Roomier t t' := by
  unfold addInclude
  split
  · exact ⟨t, rfl, .refl hw⟩
  · dsimp only
    have hle : ((t.children root).takeWhile fun c => (t.kind? c).any isPreamble).length ≤
        (t.children root).length := (List.takeWhile_sublist _).length_le
    obtain ⟨t', hok, hadopted⟩ := hw.exists_adoptAt hroot hle (.include header) none
    have hok' : (t.create (.include header)).2.adoptAt root (t.create (.include header)).1 _ =
      .ok t' := hok
    rw [hok']
    exact ⟨t', rfl, hadopted.toRoomier⟩

/-- A change of what nodes write, or of the headers they need, takes no room away. -/
theorem Roomier.of_eq (hw : t.WellFormed) (hsize : t'.size = t.size)
    (hparent : t'.parent? = t.parent?) (hchildren : t'.children = t.children)
    (hroom : t'.hasChildList = t.hasChildList) : Roomier t t' where
  wellFormed := hw.congr hparent hchildren
  size := hsize.ge
  room q hq := by rwa [hroom]
  length q := by rw [hchildren]

theorem WellFormed.exists_replaceKind (hw : t.WellFormed) (hq : q < t.size) (kind : NodeKind) :
    ∃ t', t.replaceKind q kind = .ok t' ∧ Roomier t t' := by
  obtain ⟨n, hn⟩ := exists_node hq
  refine ⟨t.replaced q kind, replaceKind_eq_ok.mpr ⟨⟨n, node_eq_ok.mp hn⟩, rfl⟩, ?_⟩
  refine .of_eq hw (size_replaced t q kind) (parent?_replaced t q kind)
    (children_replaced t q kind) ?_
  have hmodify : (t.replaced q kind).hasChildList = (t.forgetUp q).hasChildList :=
    hasChildList_modify fun _ => rfl
  rw [hmodify]
  exact hasChildList_congr (forgetAll_forgetUp t q)

theorem WellFormed.exists_addHeader (hw : t.WellFormed) (hq : q < t.size) (header : String) :
    ∃ t', t.addHeader q header = .ok t' ∧ Roomier t t' := by
  obtain ⟨n, hn⟩ := exists_node hq
  have hok : t.addHeader q header = .ok (t.modify q fun n =>
      if header ∈ n.headers then n else { n with headers := n.headers ++ [header] }) := by
    rw [addHeader, hn]
    rfl
  obtain ⟨hshape, hsize, -⟩ := addHeader_ok hok
  refine ⟨_, hok, .of_eq hw hsize hshape.parent hshape.children ?_⟩
  exact hasChildList_modify fun n => by split <;> rfl

theorem exists_requiredHeaders (hq : q < t.size) :
    ∃ headers, t.requiredHeaders q = .ok headers := by
  obtain ⟨n, hn⟩ := exists_node hq
  exact ⟨_, by rw [requiredHeaders, hn]; rfl⟩

/-! ### The tree of a module -/

/-- A tree to which the preamble of a module may be added, and then its body. -/
structure Preliminary (t : CodeTree) : Prop where
  wellFormed : t.WellFormed
  roomy : t.hasChildList root
  noBody : ∀ q, ¬ (t.kind? q).any (· matches .moduleBody _)

theorem preliminary_ofKind (name : String) : Preliminary (ofKind (.module name)) where
  wellFormed := wellFormed_empty.create _ none
  roomy := rfl
  noBody q := by
    unfold ofKind
    rw [kind?_create]
    split
    · exact Bool.false_ne_true
    · exact Bool.false_ne_true

theorem Preliminary.exists_append (h : t.Preliminary) (kind : NodeKind) (hkind : kind.isPreamble) :
    ∃ t', t.append kind = .ok t' ∧ t'.Preliminary := by
  obtain ⟨t', hok, hadopted⟩ := h.wellFormed.exists_adopt h.roomy kind none
  refine ⟨t', hok, hadopted.wellFormed, hadopted.room root h.roomy, fun q => ?_⟩
  rw [(placedAs_of_adopt hok).kinds]
  split
  · cases kind <;> first | exact Bool.false_ne_true | cases hkind
  · exact h.noBody q

/-- The body that is added to a module is found again. -/
theorem Preliminary.exists_body (h : t.Preliminary) (name : String) :
    ∃ t' body, t.append (.moduleBody name) = .ok t' ∧ t'.body? = some body ∧ t'.WellFormed ∧
      t'.hasChildList root ∧ t'.hasChildList body := by
  obtain ⟨t', hok, hadopted⟩ := h.wellFormed.exists_adopt h.roomy (.moduleBody name) none
  have hplaced := placedAs_of_adopt hok
  refine ⟨t', t.size, hok, ?_, hadopted.wellFormed, hadopted.room root h.roomy,
    hadopted.newRoom rfl⟩
  refine List.find?_eq_some_iff_append.mpr ⟨?_, t.children root, [], hplaced.after, fun c hc => ?_⟩
  · rw [hplaced.kinds, if_pos rfl]
    rfl
  · rw [hplaced.kinds, if_neg (h.wellFormed.child_lt hc).ne]
    exact Bool.not_eq_true' _ |>.mpr (Bool.eq_false_iff.mpr (h.noBody c))

/-- The alias of the namespace comes or is left out, and then the body comes. -/
theorem Preliminary.exists_rest (h : t.Preliminary) (name nspace : String) :
    ∃ t' body, (do
      let t ← t.append (.include "boost/python.hpp")
      let t ← if nspace.isEmpty then pure t
        else t.append (.namespaceAlias ⟨nspace, bindingLibrary⟩)
      t.append (.moduleBody name)) = .ok t' ∧ t'.body? = some body ∧ t'.WellFormed ∧
        t'.hasChildList root ∧ t'.hasChildList body := by
  obtain ⟨t₁, hinclude, h₁⟩ := h.exists_append (.include "boost/python.hpp") rfl
  by_cases hnspace : nspace.isEmpty
  · obtain ⟨t₂, body, hlast, h₂⟩ := h₁.exists_body name
    refine ⟨t₂, body, Except.bind_eq_ok.mpr ⟨t₁, hinclude, ?_⟩, h₂⟩
    rw [if_pos hnspace]
    exact hlast
  · obtain ⟨t₂, halias, h₂⟩ :=
      h₁.exists_append (.namespaceAlias ⟨nspace, bindingLibrary⟩) rfl
    obtain ⟨t₃, body, hlast, h₃⟩ := h₂.exists_body name
    refine ⟨t₃, body, Except.bind_eq_ok.mpr ⟨t₁, hinclude, ?_⟩, h₃⟩
    rw [if_neg hnspace]
    exact Except.bind_eq_ok.mpr ⟨t₂, halias, hlast⟩

/-- **Every module has a tree to begin with**, with a body that has room for registrations. -/
theorem exists_ofModule (name : String) (license : Option String) (nspace : String) :
    ∃ t body, ofModule name license nspace = .ok t ∧ t.body? = some body ∧ t.WellFormed ∧
      t.hasChildList root ∧ t.hasChildList body := by
  have hbegin := preliminary_ofKind name
  cases license with
  | some text =>
    obtain ⟨t₁, hlicense, h₁⟩ := hbegin.exists_append (.license text) rfl
    obtain ⟨t, body, hrest, h⟩ := h₁.exists_rest name nspace
    exact ⟨t, body, Except.bind_eq_ok.mpr ⟨t₁, hlicense, hrest⟩, h⟩
  | none =>
    obtain ⟨t, body, hrest, h⟩ := hbegin.exists_rest name nspace
    exact ⟨t, body, Except.bind_eq_ok.mpr ⟨ofKind (.module name), rfl, hrest⟩, h⟩

end Bindery.CodeTree
