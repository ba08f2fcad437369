import Bindery.Proofs.Binding.ClassTree
import Bindery.Proofs.NameMap

/-!
# The skeleton of a module

The root of a finished module is the module, with its body as the only node of the skeleton below
it.  Below the body stand the containers of the standard library and then the classes in the order
in which they are bound; below each class stand members of it, in the order in which they are
bound.

## Main definitions

* `BindingSetup.Laid s ids t body front rest` — the skeleton of `t` is of this sort, with the
  containers `front` and the classes `rest`.

## Main results

* `bind_laid` — **the skeleton of every module is of this sort.**
-/

namespace Bindery

open Binding CodeTree

namespace BindingSetup

variable {s : BindingSetup} {t t' : CodeTree} {body q : NodeId} {front rest : List NodeId}
  {ids : List DeclId}

/-- A registration of a class of the standard library, without classes below it. -/
def IsContainer (s : BindingSetup) (t : CodeTree) (q : NodeId) : Prop :=
  (∃ d, t.part? q = some (.cls d) ∧ s.graph.isStd d) ∧ t.parts q = []

/-- The skeleton of a module: the module, its body, the containers of the standard library, the
classes of the list, and below each class its members. -/
structure Laid (s : BindingSetup) (ids : List DeclId) (t : CodeTree) (body : NodeId)
    (front rest : List NodeId) : Prop where
  wellFormed : t.WellFormed
  partRoot : t.part? root = some .module
  partBody : t.part? body = some .body
  partOther : ∀ q, q ≠ root → q ≠ body → (t.part? q).isSome → q ∈ front ∨ s.Filled t q
  partsRoot : t.parts root = [body]
  partsBody : t.parts body = front ++ rest
  containers : ∀ q ∈ front, s.IsContainer t q
  registered : t.Registers rest (ids.filter s.graph.isClass)
  outside : ∀ q, t.part? q = none → t.parts q = []

theorem exists_moduleBody (h : t.body? = some q) :
    q ∈ t.children root ∧ ∃ name, t.kind? q = some (.moduleBody name) := by
  have hbody := List.find?_some h
  obtain ⟨kind, hkind, hbody⟩ := (Option.any_eq_true _ _).mp hbody
  cases kind with
  | moduleBody name => exact ⟨List.mem_of_find?_eq_some h, name, hkind⟩
  | _ => cases hbody

theorem part?_eq_body_iff : t.part? q = some .body ↔ ∃ name, t.kind? q = some (.moduleBody name) := by
  unfold CodeTree.part?
  constructor
  · intro h
    obtain ⟨kind, hkind, hpart⟩ := Option.bind_eq_some_iff.mp h
    cases kind with
    | moduleBody name => exact ⟨name, hkind⟩
    | cls c =>
      obtain ⟨d, -, hd⟩ := Option.map_eq_some_iff.mp hpart
      cases hd
    | _ => cases hpart
  · rintro ⟨name, hkind⟩
    rw [hkind]
    rfl

namespace Laid

theorem root_ne_body (h : s.Laid ids t body front rest) : root ≠ body := by
  rintro rfl
  have hpart := h.partRoot
  rw [h.partBody] at hpart
  cases hpart

theorem of_sameParts (h : s.Laid ids t body front rest) (hsame : t.SameParts t') :
    s.Laid ids t' body front rest := by
  have hkept : ∀ q part, t.part? q = some part → t'.part? q = some part :=
    fun q part hq => by rw [hsame.part, hq]
  constructor
  · exact hsame.wellFormed h.wellFormed
  · exact hkept _ _ h.partRoot
  · exact hkept _ _ h.partBody
  · intro q hroot hbody hq
    rw [hsame.part] at hq
    exact (h.partOther q hroot hbody hq).imp_right fun hfilled =>
      hfilled.keep hkept (congrFun hsame.parts q)
  · rw [hsame.parts, h.partsRoot]
  · rw [hsame.parts, h.partsBody]
  · intro q hq
    unfold IsContainer
    rw [hsame.part, hsame.parts]
    exact h.containers q hq
  · exact h.registered.keep hkept
  · intro q hq
    rw [hsame.parts, h.outside q (by rw [← hsame.part, hq])]

/-- Classes join a skeleton that has none yet. -/
theorem of_adds (h : s.Laid [] t body [] []) (hadds : s.Adds body ids t t') :
    ∃ rest, s.Laid ids t' body [] rest := by
  have hne := h.root_ne_body
  obtain ⟨l, hparts, hl⟩ := hadds.under
  rw [h.partsBody, List.append_nil, List.nil_append] at hparts
  refine ⟨l, hadds.wellFormed, hadds.kept _ _ h.partRoot, hadds.kept _ _ h.partBody, ?_, ?_,
    hparts, fun q hq => absurd hq List.not_mem_nil, hl, ?_⟩
  · intro q hroot hbody hq
    right
    by_cases hold : t.part? q = none
    · exact hadds.filled q hold hq
    · have hold : (t.part? q).isSome := Option.isSome_iff_ne_none.mpr hold
      have hfilled := (h.partOther q hroot hbody hold).resolve_left List.not_mem_nil
      exact hfilled.keep hadds.kept (hadds.elsewhere q hbody (.inl hold))
  · rw [hadds.elsewhere root hne (.inl (by rw [h.partRoot]; rfl)), h.partsRoot]
  · intro q hq
    have hqb : q ≠ body := by
      rintro rfl
      rw [hadds.kept _ _ h.partBody] at hq
      cases hq
    rw [hadds.elsewhere q hqb (.inr hq), h.outside q (hadds.none_before hq)]

/-- A container joins the others in front of the classes. -/
theorem of_placed (h : s.Laid ids t body front rest) {registration : ClassNode} {d : DeclId}
    {back : List NodeId} (hplaced : Placed t body (.cls registration) (some d) front back t')
    (hstd : s.graph.isStd d) : s.Laid ids t' body (front ++ [t.size]) rest := by
  have hw := h.wellFormed
  have hkept : ∀ q part, t.part? q = some part → t'.part? q = some part :=
    fun q part hq => hplaced.part_of_some hq
  have hself : t'.part? t.size = some (.cls d) := hplaced.part_self
  have hne := h.root_ne_body
  -- the containers are in the skeleton, so that nothing of the front is left out
  have hfront : front.filter (fun c => (t.part? c).isSome) = front := by
    rw [List.filter_eq_self]
    intro q hq
    obtain ⟨⟨d, hd, -⟩, -⟩ := h.containers q hq
    rw [hd]
    rfl
  have hback : back.filter (fun c => (t.part? c).isSome) = rest := by
    have hbody := h.partsBody
    unfold CodeTree.parts at hbody
    rw [hplaced.before, List.filter_append, hfront] at hbody
    exact List.append_cancel_left hbody
  constructor
  · exact hplaced.wellFormed hw
  · exact hkept _ _ h.partRoot
  · exact hkept _ _ h.partBody
  · intro q hroot hbody hq
    rw [hplaced.part] at hq
    split at hq
    · next hqs => exact .inl (hqs ▸ List.mem_append_right front (List.mem_singleton_self q))
    · rcases h.partOther q hroot hbody hq with hmem | hfilled
      · exact .inl (List.mem_append_left _ hmem)
      · exact .inr (hfilled.keep hkept (hplaced.parts_of_ne hw hbody))
  · rw [hplaced.parts_of_ne hw hne, h.partsRoot]
  · rw [hplaced.parts_self hw rfl, hfront, hback, List.append_assoc]
    rfl
  · intro q hq
    rcases List.mem_append.mp hq with hq | hq
    · obtain ⟨⟨e, he, hestd⟩, hparts⟩ := h.containers q hq
      have hqb : q ≠ body := by
        rintro rfl
        rw [h.partBody] at he
        cases he
      exact ⟨⟨e, hkept q _ he, hestd⟩, by rw [hplaced.parts_of_ne hw hqb, hparts]⟩
    · rw [List.mem_singleton.mp hq]
      exact ⟨⟨d, hself, hstd⟩, hplaced.parts_new⟩
  · exact h.registered.keep hkept
  · intro q hq
    rw [hplaced.part] at hq
    split at hq
    · cases hq
    · have hqb : q ≠ body := by
        rintro rfl
        rw [h.partBody] at hq
        cases hq
      rw [hplaced.parts_of_ne hw hqb, h.outside q hq]

/-! ### Reading the skeleton -/

/-- Below which nodes of the skeleton others stand. -/
theorem mem_parts {p : NodeId} (h : s.Laid ids t body front rest) (hq : q ∈ t.parts p) :
    p = root ∧ q = body ∨ p = body ∧ q ∈ front ++ rest ∨ p ∉ front ∧ s.Filled t p := by
  by_cases hroot : p = root
  · rw [hroot, h.partsRoot] at hq
    exact .inl ⟨hroot, List.mem_singleton.mp hq⟩
  by_cases hbody : p = body
  · rw [hbody, h.partsBody] at hq
    exact .inr (.inl ⟨hbody, hq⟩)
  have hfront : p ∉ front := by
    intro hmem
    rw [(h.containers p hmem).2] at hq
    cases hq
  have hsome : (t.part? p).isSome := by
    rw [Option.isSome_iff_ne_none]
    intro hnone
    rw [h.outside p hnone] at hq
    cases hq
  exact .inr (.inr ⟨hfront, (h.partOther p hroot hbody hsome).resolve_left hfront⟩)

/-- The body is the only one in the skeleton below the module. -/
theorem eq_body (h : s.Laid ids t body front rest) (hq : q ∈ t.children root) {name : String}
    (hkind : t.kind? q = some (.moduleBody name)) : q = body := by
  have hmem : q ∈ t.parts root :=
    CodeTree.mem_parts.mpr ⟨hq, by rw [part?_eq_body_iff.mpr ⟨name, hkind⟩]; rfl⟩
  rw [h.partsRoot] at hmem
  exact List.mem_singleton.mp hmem

theorem body?_eq (h : s.Laid ids t body front rest) : t.body? = some body := by
  have hmem : body ∈ t.children root := by
    have hpart : body ∈ t.parts root := by
      rw [h.partsRoot]
      exact List.mem_singleton_self body
    exact (CodeTree.mem_parts.mp hpart).1
  obtain ⟨name, hkind⟩ := part?_eq_body_iff.mp h.partBody
  cases hfind : t.body? with
  | none =>
    have hnone := List.find?_eq_none.mp hfind body hmem
    rw [hkind] at hnone
    exact absurd rfl hnone
  | some c =>
    obtain ⟨hc, name', hkind'⟩ := exists_moduleBody hfind
    rw [h.eq_body hc hkind']

/-- Nothing is above the module. -/
theorem parent?_root (h : s.Laid ids t body front rest) : t.parent? root = none := by
  by_contra hne
  obtain ⟨p, hp⟩ := Option.ne_none_iff_exists'.mp hne
  have hmem : root ∈ t.parts p :=
    CodeTree.mem_parts.mpr ⟨(h.wellFormed.child p root).mpr hp, by rw [h.partRoot]; rfl⟩
  have hcls : ∀ d, t.part? root ≠ some (.cls d) := by
    intro d hd
    rw [h.partRoot] at hd
    cases hd
  rcases h.mem_parts hmem with ⟨-, hroot⟩ | ⟨-, hmem⟩ | ⟨-, e, members, -, -, -, hregisters⟩
  · exact h.root_ne_body hroot
  · rcases List.mem_append.mp hmem with hmem | hmem
    · obtain ⟨⟨d, hd, -⟩, -⟩ := h.containers root hmem
      exact hcls d hd
    · obtain ⟨d, -, hd⟩ := h.registered.part_of_mem hmem
      exact hcls d hd
  · obtain ⟨d, -, hd⟩ := hregisters.part_of_mem hmem
    exact hcls d hd

/-- Above the body is the module. -/
theorem ancestors_body (h : s.Laid ids t body front rest) : t.ancestors body = [root] := by
  have hmem : body ∈ t.parts root := by
    rw [h.partsRoot]
    exact List.mem_singleton_self body
  exact h.wellFormed.ancestors_eq
    ⟨(h.wellFormed.child root body).mp (CodeTree.mem_parts.mp hmem).1, h.parent?_root⟩

end Laid

/-! ### Before anything is bound -/

/-- A tree with the module as the only node of its skeleton. -/
structure Bare (t : CodeTree) : Prop where
  wellFormed : t.WellFormed
  partRoot : t.part? root = some .module
  partOther : ∀ q, q ≠ root → t.part? q = none
  parts : ∀ q, t.parts q = []

theorem bare_ofKind (name : String) : Bare (ofKind (.module name)) := by
  have hpart : ∀ q, (ofKind (.module name)).part? q =
      if q = root then some .module else none := fun q => part?_create {} (.module name) none q
  refine ⟨wellFormed_empty.create _ _, by rw [hpart, if_pos rfl], ?_, fun q => ?_⟩
  · intro q hq
    rw [hpart, if_neg hq]
  · unfold CodeTree.parts ofKind
    rw [children_create]
    rfl

theorem Bare.append {kind : NodeKind} (h : Bare t) (hkind : kind.part? none = none)
    (hok : t.append kind = .ok t') : Bare t' := by
  have hsame := (append_ok hok).sameParts hkind
  refine ⟨hsame.wellFormed h.wellFormed, by rw [hsame.part, h.partRoot], ?_, ?_⟩
  · intro q hq
    rw [hsame.part, h.partOther q hq]
  · intro q
    rw [hsame.parts, h.parts]

/-- With a body the module has the skeleton of a module without classes. -/
theorem Bare.laid {name : String} (h : Bare t) (hok : t.append (.moduleBody name) = .ok t')
    (hbody : t'.body? = some body) (s : BindingSetup) : s.Laid [] t' body [] [] := by
  have hplaced := append_ok hok
  have hw := h.wellFormed
  have hpartBody : t'.part? body = some .body :=
    part?_eq_body_iff.mpr (exists_moduleBody hbody).2
  -- the skeleton had no body, so that the one found is the new node
  have hsize : body = t.size := by
    by_contra hne
    rw [hplaced.part, if_neg hne] at hpartBody
    by_cases hroot : body = root
    · rw [hroot, h.partRoot] at hpartBody
      cases hpartBody
    · rw [h.partOther body hroot] at hpartBody
      cases hpartBody
  have hne : root ≠ t.size := hplaced.old
  refine ⟨hplaced.wellFormed hw, ?_, hpartBody, ?_, ?_, ?_, ?_, Registers.nil t' [], ?_⟩
  · rw [hplaced.part, if_neg hne, h.partRoot]
  · intro q hroot hqb hq
    rw [hplaced.part, if_neg (hsize ▸ hqb), h.partOther q hroot] at hq
    cases hq
  · have hparts := hplaced.parts_self hw rfl
    have hnone : (t.children root).filter (fun c => (t.part? c).isSome) = [] := h.parts root
    rw [hparts, hnone, hsize]
    rfl
  · rw [hsize, hplaced.parts_new]
    rfl
  · exact fun q hq => absurd hq List.not_mem_nil
  · intro q hq
    have hqr : q ≠ root := by
      rintro rfl
      rw [hplaced.part, if_neg hne, h.partRoot] at hq
      cases hq
    rw [hplaced.parts_of_ne hw hqr, h.parts]

theorem laid_ofModule {name nspace : String} {license : Option String}
    (hok : CodeTree.ofModule name license nspace = .ok t) (hbody : t.body? = some body)
    (s : BindingSetup) : s.Laid [] t body [] [] := by
  obtain ⟨t₀, hbare, hlast⟩ := ofModule_ok (P := Bare) (bare_ofKind name)
    (fun hkind hbare happend => hbare.append (NodeKind.part?_of_isPreamble hkind none) happend) hok
  exact hbare.laid hlast hbody s

/-! ### Containers -/

/-- A plain step that leaves the children of `p` alone. -/
def Beside (p : NodeId) (b b' : Binder) : Prop :=
  Plain b b' ∧ b'.tree.children p = b.tree.children p

instance (p : NodeId) : StepRelation (Beside p) where
  of_tree_eq h := ⟨StepRelation.of_tree_eq h, by rw [h]⟩
  trans h h' := ⟨StepRelation.trans h.1 h'.1, h'.2.trans h.2⟩

theorem beside_place {p parent : NodeId} {kind : NodeKind} {decl : Option DeclId}
    (hkind : kind.part? decl = none) (hne : p ≠ parent) :
    Moves (Beside p) (place parent kind decl) := by
  intro b id b' h
  have hplain : Plain b b' := plain_place hkind b id b' h
  obtain ⟨rfl, t, hadopt, rfl⟩ := place_ok h
  exact ⟨hplain, (placed_of_adopt hadopt).children p hne⟩

theorem beside_addHeaders (p node : NodeId) (headers : List String) :
    Moves (Beside p) (addHeaders node headers) := by
  refine Moves.forM headers fun header _ b u b' h => ?_
  obtain ⟨t, hadd, rfl⟩ := editTree_ok h
  have hshape := (addHeader_ok hadd).1
  exact ⟨SameParts.of_shape hshape, congrFun hshape.children p⟩

/-- A container is registered behind the containers in front of it. -/
theorem registerContainer_ok {b b' : Binder} {u : PUnit} {fullName : String} {id : DeclId}
    {kind : ContainerKind} (h : s.Laid ids b.tree body front rest)
    (hfront : front <+: b.tree.children body) (hstd : s.graph.isStd id)
    (hrun : (s.registerContainer body front.length fullName id kind).run b = .ok (u, b')) :
    ∃ n, s.Laid ids b'.tree body (front ++ [n]) rest ∧
      (front ++ [n]) <+: b'.tree.children body := by
  unfold registerContainer at hrun
  obtain ⟨pythonName, b₁, hname, hrun⟩ := run_bind_eq_ok.mp hrun
  obtain ⟨exposer, b₂, hexposer, hrun⟩ := run_bind_eq_ok.mp hrun
  obtain ⟨node, b₃, hplace, hrun⟩ := run_bind_eq_ok.mp hrun
  have hnamed : Beside body b b₂ :=
    StepRelation.trans (s.moves_pythonName id _ _ _ hname) (s.moves_exposer id _ _ _ hexposer)
  have hlaid := h.of_sameParts hnamed.1
  rw [← hnamed.2] at hfront
  obtain ⟨back, hback⟩ := hfront
  obtain ⟨rfl, t, hadopt, rfl⟩ := placeAt_ok hplace
  have hplaced := placed_of_adoptAt hadopt
  rw [← hback, List.take_left, List.drop_left] at hplaced
  have hrest : Beside body { b₂ with tree := t } b' := by
    refine (?_ : Moves (Beside body) _) _ _ _ hrun
    refine (beside_place rfl hplaced.old).bind fun _ => ?_
    exact (beside_addHeaders _ _ _).bind fun _ => moves_markExported id
  -- the header and the text of the container come below it, not beside it
  refine ⟨b₂.tree.size, (hlaid.of_placed hplaced hstd).of_sameParts hrest.1, back, ?_⟩
  rw [hrest.2, List.append_assoc]
  exact hplaced.after.symm

/-- The containers that are used are classes of the standard library. -/
theorem isStdClass_of_mem_usedContainers {name : String} {u : DeclId × ContainerKind}
    (h : (name, u) ∈ s.usedContainers ids) : s.graph.isClass u.1 ∧ s.graph.isStd u.1 := by
  unfold usedContainers at h
  obtain ⟨v, hv, heq⟩ := List.mem_map.mp (NameMap.mem_of_mem_ofList h)
  obtain ⟨target, -, htarget⟩ := List.mem_filterMap.mp hv
  cases heq
  unfold usedContainer? at htarget
  rw [Option.ite_none_right_eq_some] at htarget
  obtain ⟨hused, htarget⟩ := htarget
  obtain ⟨kind, -, rfl⟩ := Option.map_eq_some_iff.mp htarget
  exact Bool.and_eq_true_iff.mp hused

/-- One container after the other: those so far are the first children of the body, so that the
next one joins them. -/
theorem forM_registerContainer_ok
    {register : (String × DeclId × ContainerKind) × Nat → Binding PUnit} {u : PUnit}
    (hregister : ∀ fullName id kind position, register ((fullName, id, kind), position) =
      s.registerContainer body position fullName id kind)
    (containers : NameMap (DeclId × ContainerKind)) : ∀ (front : List NodeId) (b b' : Binder),
      (∀ c ∈ containers, s.graph.isStd c.2.1) → s.Laid ids b.tree body front rest →
      front <+: b.tree.children body →
      ((containers.zipIdx front.length).forM register).run b = .ok (u, b') →
      ∃ front, s.Laid ids b'.tree body front rest := by
  induction containers with
  | nil =>
    intro front b b' _ hlaid _ hrun
    obtain ⟨-, rfl⟩ := run_pure_eq_ok.mp hrun
    exact ⟨front, hlaid⟩
  | cons c containers ih =>
    intro front b b' hstd hlaid hfront hrun
    obtain ⟨fullName, id, kind⟩ := c
    rw [List.zipIdx_cons] at hrun
    obtain ⟨v, b₁, hfirst, hrest⟩ := run_bind_eq_ok.mp hrun
    rw [hregister] at hfirst
    have hid : s.graph.isStd id := hstd _ List.mem_cons_self
    obtain ⟨n, hlaid₁, hfront₁⟩ := registerContainer_ok hlaid hfront hid hfirst
    refine ih (front ++ [n]) b₁ b' (fun d hd => hstd d (List.mem_cons_of_mem _ hd)) hlaid₁
      hfront₁ ?_
    rw [List.length_append]
    exact hrest

/-- The containers are registered one behind the other, in front of the classes. -/
theorem registerContainers_ok {b b' : Binder} {u : PUnit} (h : s.Laid ids b.tree body [] rest)
    (hrun : (s.registerContainers body).run b = .ok (u, b')) :
    ∃ front, s.Laid ids b'.tree body front rest := by
  unfold registerContainers at hrun
  obtain ⟨b₁, b₂, hget, hrun⟩ := run_bind_eq_ok.mp hrun
  obtain ⟨rfl, rfl⟩ := run_get_eq_ok.mp hget
  exact forM_registerContainer_ok (fun _ _ _ _ => rfl) _ [] b b'
    (fun c hc => (isStdClass_of_mem_usedContainers hc).2) h List.nil_prefix hrun

/-! ### The module -/

/-- As long as no container is registered, a module has the classes in the order in which they are
bound. -/
theorem registers_laid {t : CodeTree} {b : Binder} {v : PUnit}
    (hmodule : CodeTree.ofModule s.options.name s.options.license s.options.bindingNamespace = .ok t)
    (hbody : t.body? = some body)
    (hregister : (ids.forM (s.register body)).run { tree := t } = .ok (v, b)) :
    ∃ rest, s.Laid ids b.tree body [] rest := by
  have hlaid := laid_ofModule hmodule hbody s
  have hgrows : s.Grows body ids { tree := t } b :=
    grows_forM ids (fun id _ => register_grows s body id) _ _ _ hregister
  exact hlaid.of_adds (hgrows hlaid.wellFormed (by rw [hlaid.partBody]; rfl))

/-- **A module has the containers in front and then the classes, in the order in which they are
bound.** -/
theorem bind_laid {b : Binder} (h : s.bind ids = .ok b) :
    ∃ body front rest, s.Laid ids b.tree body front rest := by
  obtain ⟨t, body, u, hmodule, hbody, hrun⟩ := bind_ok h
  obtain ⟨b₁, b₂, v, w, hregister, hcontainers, hinclude⟩ := bindAll_ok hrun
  -- the classes come first, and then the containers in front of them
  obtain ⟨rest, hrest⟩ := registers_laid hmodule hbody hregister
  obtain ⟨front, hfront⟩ := registerContainers_ok hrest hcontainers
  have hplain : Plain b₂ b := moves_plain s none moves_includeHeaders _ _ _ hinclude
  exact ⟨body, front, rest, hfront.of_sameParts hplain⟩

end BindingSetup

end Bindery
