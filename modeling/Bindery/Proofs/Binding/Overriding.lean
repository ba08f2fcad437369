import Bindery.Binding.Module
import Bindery.Decl.Validation
import Bindery.Proofs.Binding.StandIns

/-!
# Pure virtual functions that a wrapper class overrides

A wrapper class ought to override what its class leaves unimplemented, or no object can be made of
it.  It overrides the methods, and of the functions of the bases only member functions are bound as
methods again: a call operator is overridden by the wrapper class of the class that declares it,
but not by those of its heirs, and other operators and conversions are overridden nowhere.

## Main definitions

* `DeclGraph.Ordinary` — a function is declared as the language asks for.

## Main results

* `bindsMethod_iff_of_unimplemented` — the unimplemented functions that are bound as methods.
* `overrides_unimplemented_iff` — **an unimplemented function is overridden if and only if it is a
  member function, or the class itself declares it as a call operator.**
-/

namespace Bindery

namespace DeclGraph

/-- The function is declared as the language asks for: no scope declares its signature twice, and
all functions of its signature are functions of one sort. -/
structure Ordinary (g : DeclGraph) (f : DeclId) : Prop where
  unique : ∀ c ∈ g.ids, f ∈ g.members c → ∀ x ∈ g.members c, g.sameSignature x f → x = f
  kind : ∀ x ∈ g.ids, g.sameSignature x f →
    (g.callable? x).map (·.kind) = (g.callable? f).map (·.kind)

variable {g : DeclGraph} {c f x : DeclId}

theorem mem_ids_of_mem_members (h : x ∈ g.members c) : c ∈ g.ids :=
  List.mem_range.mpr (lt_size_of_mem_members h)

theorem mem_ids_of_callable? {k : Callable} (h : g.callable? x = some k) : x ∈ g.ids := by
  rw [callable?_eq_some_iff] at h
  unfold kind? get? at h
  cases hd : g.decls[x]? with
  | none => simp [hd] at h
  | some d => exact List.mem_range.mpr (Array.getElem?_eq_some_iff.mp hd).1

end DeclGraph

namespace BindingSetup

open CodeTree

variable {s : BindingSetup} {b : Binder} {cls f m : DeclId} {k : Callable} {q : NodeId}

/-- A pure virtual function stands in, unless it is static. -/
theorem standsIn_of_pure (hk : s.graph.callable? f = some k) (hpure : k.virtuality = .pure)
    (hstatic : k.isStatic = false) : s.StandsIn f := by
  have hkind := DeclGraph.callable?_eq_some_iff.mp hk
  unfold DeclGraph.kind? at hkind
  obtain ⟨d, hd, hkd⟩ := Option.map_eq_some_iff.mp hkind
  have hexposure : Exposure.of d.access k =
      .shim (match d.access with
        | .priv => .privPureVirtual
        | .pub => .pureVirtual
        | .prot => .protPureVirtual) := by
    unfold Exposure.of
    rw [hpure, hstatic]
    cases d.access <;> rfl
  refine ⟨d, k, _, hd, hkd, hexposure, ?_, ?_⟩ <;> cases d.access <;> intro h <;> cases h

/-- A pure virtual function that a class declares itself comes into question for its binding. -/
theorem isCandidate_of_pure (hk : s.graph.callable? f = some k) (hpure : k.virtuality = .pure)
    (access : Access) : s.graph.isCandidate f access := by
  unfold DeclGraph.isCandidate
  cases access with
  | pub => rfl
  | prot => rw [hk]; rfl
  | priv =>
    rw [hk, Option.any_some, hpure]
    rfl

/-- A pure virtual function that the class declares itself is bound as a method if it is one. -/
theorem bindsMethod_own_iff (hcompleted : s.Completed b cls) (hk : s.graph.callable? f = some k)
    (hpure : k.virtuality = .pure) (hexportable : s.isExportable f = .ok true)
    (hf : f ∈ s.graph.members cls) : s.BindsMethod cls f ↔ s.graph.isMethod f := by
  constructor
  · rintro (⟨members, -, -, hmethod⟩ | ⟨found, hfound, hmem⟩)
    · exact hmethod
    · refine absurd (DeclGraph.declares_iff.mpr ⟨f, hf, ?_⟩)
        (inheritedMethods_offered hfound hmem).1
      exact DeclGraph.sameSignature_self (by rw [hk]; rfl)
  · intro hmethod
    obtain ⟨members, hmembers⟩ := hcompleted.members
    have hkind := DeclGraph.callable?_eq_some_iff.mp hk
    obtain ⟨d, hd, -⟩ := Option.map_eq_some_iff.mp hkind
    exact .inl ⟨members, hmembers, (mem_boundMembers hmembers).mpr
      ⟨hf, ⟨d, hd, isCandidate_of_pure hk hpure d.access⟩, hexportable⟩, hmethod⟩

/-- What a base offers is bound as a method again, if it is the only function of its signature in
its class and no class in front declares the signature. -/
theorem bindsMethod_of_nearest {front back : List DeclId} {o : DeclId}
    (hcompleted : s.Completed b cls) (hoffers : s.Offers o f)
    (hunique : ∀ x ∈ s.graph.members o, s.graph.sameSignature x f → x = f)
    (hclasses : cls :: s.graph.recursiveBases cls = cls :: front ++ o :: back)
    (hfront : ∀ a ∈ cls :: front, ¬ s.graph.declares a f) : s.BindsMethod cls f := by
  obtain ⟨found, hfound⟩ := hcompleted.inherited
  have hbases : s.graph.recursiveBases cls = front ++ o :: back := (List.cons.inj hclasses).2
  obtain ⟨m, hm, hsame⟩ := exists_inherited hfound (by rw [hbases]; simp) hoffers
    (hfront cls List.mem_cons_self)
  obtain ⟨-, front', o', back', hbases', hoffers', hfirst⟩ := inheritedMethods_offered hfound hm
  -- the function of the signature that is found cannot stand in front of `f`, nor behind it
  have hnot : o ∉ front' := fun ho =>
    hfirst o ho f hoffers (DeclGraph.sameSignature_symm hsame)
  rw [hbases, List.append_eq_append_iff] at hbases'
  have hself : o = o' := by
    rcases hbases' with ⟨more, rfl, hmore⟩ | ⟨more, rfl, hmore⟩
    · cases more with
      | nil => exact (List.cons.inj hmore).1
      | cons d more =>
        obtain ⟨rfl, -⟩ := List.cons.inj hmore
        exact absurd (by simp) hnot
    · cases more with
      | nil => exact (List.cons.inj hmore).1.symm
      | cons d more =>
        obtain ⟨rfl, -⟩ := List.cons.inj hmore
        exact absurd (DeclGraph.declares_iff.mpr ⟨m, hoffers'.member, hsame⟩)
          (hfront o' (by simp))
  subst hself
  exact .inr ⟨found, hfound, hunique m hoffers'.member hsame ▸ hm⟩

/-- An unimplemented function of a base is bound as a method of the class if it is a member
function. -/
theorem bindsMethod_inherited_iff (hcompleted : s.Completed b cls)
    (hf : f ∈ s.graph.unimplementedPureVirtuals cls) (hk : s.graph.callable? f = some k)
    (hexportable : s.isExportable f = .ok true) (hordinary : s.graph.Ordinary f)
    (hown : f ∉ s.graph.members cls) : s.BindsMethod cls f ↔ k.kind = .memberFunction := by
  obtain ⟨front, o, back, hclasses, hpure, hfront⟩ := DeclGraph.nearest_of_unimplemented hf
  obtain ⟨ho, k', hk', hpure⟩ := DeclGraph.mem_pureVirtuals.mp hpure
  obtain rfl : k = k' := Option.some.inj (hk.symm.trans hk')
  constructor
  · rintro (⟨members, hmembers, hmem, -⟩ | ⟨found, hfound, hmem⟩)
    · exact absurd ((mem_boundMembers hmembers).mp hmem).1 hown
    · obtain ⟨-, _, _, _, -, hoffers, -⟩ := inheritedMethods_offered hfound hmem
      obtain ⟨k', hk', hkind, -⟩ := hoffers.inheritable
      obtain rfl : k = k' := Option.some.inj (hk.symm.trans hk')
      exact hkind
  · intro hkind
    have haccess : (s.graph.access? f).any (isInheritable · k.virtuality) := by
      obtain ⟨d, hd, -⟩ := Option.map_eq_some_iff.mp (DeclGraph.callable?_eq_some_iff.mp hk)
      unfold DeclGraph.access?
      rw [hd, hpure]
      show isInheritable d.access .pure
      cases d.access <;> rfl
    have hoffers : s.Offers o f := ⟨ho, ⟨k, hk, hkind, haccess⟩, hexportable⟩
    have hunique := hordinary.unique o (DeclGraph.mem_ids_of_mem_members ho) ho
    cases front with
    | nil =>
      obtain ⟨rfl, -⟩ := List.cons.inj hclasses
      exact absurd ho hown
    | cons c front =>
      obtain rfl : cls = c := (List.cons.inj hclasses).1
      exact bindsMethod_of_nearest hcompleted hoffers hunique hclasses hfront

/-- An unimplemented function is bound as a method if and only if it is a method that the class
declares itself, or a member function of a base. -/
theorem bindsMethod_iff_of_unimplemented (hcompleted : s.Completed b cls)
    (hf : f ∈ s.graph.unimplementedPureVirtuals cls) (hk : s.graph.callable? f = some k)
    (hexportable : s.isExportable f = .ok true) (hordinary : s.graph.Ordinary f) :
    s.BindsMethod cls f ↔
      if f ∈ s.graph.members cls then s.graph.isMethod f = true else k.kind = .memberFunction := by
  obtain ⟨-, o, -, -, hpure, -⟩ := DeclGraph.nearest_of_unimplemented hf
  obtain ⟨-, k', hk', hpure⟩ := DeclGraph.mem_pureVirtuals.mp hpure
  obtain rfl : k = k' := Option.some.inj (hk.symm.trans hk')
  split
  · next hown => exact bindsMethod_own_iff hcompleted hk hpure hexportable hown
  · next hown => exact bindsMethod_inherited_iff hcompleted hf hk hexportable hordinary hown

/-- An unimplemented function is bound as a method itself where any function of its signature is. -/
theorem bindsMethod_of_sameSignature (hcompleted : s.Completed b cls)
    (hf : f ∈ s.graph.unimplementedPureVirtuals cls) (hk : s.graph.callable? f = some k)
    (hexportable : s.isExportable f = .ok true) (hordinary : s.graph.Ordinary f)
    (hsame : s.graph.sameSignature m f) (hm : s.BindsMethod cls m) : s.BindsMethod cls f := by
  obtain ⟨km, -, hkm, -⟩ := DeclGraph.sameSignature_iff.mp hsame
  have hkind : km.kind = k.kind := by
    have hmap := hordinary.kind m (DeclGraph.mem_ids_of_callable? hkm) hsame
    rw [hkm, hk] at hmap
    exact Option.some.inj hmap
  have hdeclared : m ∈ s.graph.members cls → m = f := by
    intro hmem
    have hown : f ∈ s.graph.members cls := by
      by_contra hnot
      obtain ⟨front, o, back, hclasses, hpure, hfront⟩ := DeclGraph.nearest_of_unimplemented hf
      cases front with
      | nil =>
        obtain ⟨rfl, -⟩ := List.cons.inj hclasses
        exact hnot (DeclGraph.mem_pureVirtuals.mp hpure).1
      | cons c front =>
        obtain rfl : cls = c := (List.cons.inj hclasses).1
        exact hfront cls List.mem_cons_self (DeclGraph.declares_iff.mpr ⟨m, hmem, hsame⟩)
    exact hordinary.unique cls (DeclGraph.mem_ids_of_mem_members hown) hown m hmem hsame
  rcases hm with ⟨members, hmembers, hmem, hmethod⟩ | ⟨found, hfound, hmem⟩
  · obtain rfl := hdeclared ((mem_boundMembers hmembers).mp hmem).1
    exact .inl ⟨members, hmembers, hmem, hmethod⟩
  · obtain ⟨hnot, _, _, _, -, hoffers, -⟩ := inheritedMethods_offered hfound hmem
    obtain ⟨km', hkm', hmember, -⟩ := hoffers.inheritable
    obtain rfl : km = km' := Option.some.inj (hkm.symm.trans hkm')
    rw [bindsMethod_iff_of_unimplemented hcompleted hf hk hexportable hordinary, if_neg]
    · exact hkind ▸ hmember
    · intro hown
      exact hnot (DeclGraph.declares_iff.mpr ⟨f, hown, DeclGraph.sameSignature_symm hsame⟩)

/-- **An unimplemented function is overridden in the wrapper class of a class if and only if it is
bound as a method there**: as a member function, or as a call operator that the class itself
declares.  Any function at all is overridden if and only if one of its signature is bound as a
method and stands in. -/
theorem overrides_unimplemented_iff {ids : List DeclId} {w : WrapperNode} (h : s.bind ids = .ok b)
    (hq : b.tree.kind? q = some (.wrapper w)) (hcls : b.tree.decl? q = some cls) :
    (∀ f, (∃ n ∈ b.tree.children q, s.Overrides b.tree n f) ↔
      ∃ m, s.BindsMethod cls m ∧ s.graph.sameSignature m f ∧ s.StandsIn m) ∧
    ∀ f k, f ∈ s.graph.unimplementedPureVirtuals cls → s.graph.callable? f = some k →
      k.isStatic = false → s.isExportable f = .ok true → s.graph.Ordinary f →
        ((∃ n ∈ b.tree.children q, s.Overrides b.tree n f) ↔
          if f ∈ s.graph.members cls then s.graph.isMethod f = true
          else k.kind = .memberFunction) := by
  refine ⟨fun f => overrides_iff h hq hcls, fun f k hf hk hstatic hexportable hordinary => ?_⟩
  have hcompleted : s.Completed b cls := by
    obtain ⟨cls', name, hdecl, hw⟩ := (bind_informed h).known q _ hq
    obtain rfl : cls = cls' := Option.some.inj (hcls.symm.trans hdecl)
    exact bind_completed h (by rw [hw]; rfl)
  obtain ⟨-, o, -, -, hpure, -⟩ := DeclGraph.nearest_of_unimplemented hf
  obtain ⟨-, k', hk', hpure⟩ := DeclGraph.mem_pureVirtuals.mp hpure
  obtain rfl : k = k' := Option.some.inj (hk.symm.trans hk')
  rw [overrides_iff h hq hcls,
    ← bindsMethod_iff_of_unimplemented hcompleted hf hk hexportable hordinary]
  constructor
  · rintro ⟨m, hm, hsame, -⟩
    exact bindsMethod_of_sameSignature hcompleted hf hk hexportable hordinary hsame hm
  · intro hm
    exact ⟨f, hm, DeclGraph.sameSignature_self (by rw [hk]; rfl), standsIn_of_pure hk hpure hstatic⟩

/-! ### Inherited functions and inherited operators -/

/-- A pure virtual function of a class, and an heir with a virtual function of its own. -/
def pureBase (name : String) (kind : CallableKind) : DeclGraph :=
  ⟨#[{ name := "::", kind := .ns [1, 3] },
    { name := "Base", kind := .cls { members := [2] }, parent := some DeclGraph.root },
    { name, parent := some 1, kind := .callable {
        kind, returnType := some (.fundamental .int), virtuality := .pure } },
    { name := "Leaf", kind := .cls { bases := [{ base := 1 }], members := [4] },
      parent := some DeclGraph.root },
    { name := "run", parent := some 3, kind := .callable {
        kind := .memberFunction, returnType := some (.fundamental .int),
        virtuality := .overridable } }]⟩

/-- An inherited member function is overridden. -/
theorem overrides_unimplemented_memberFunction :
    ∃ (s : BindingSetup) (b : Binder) (q : NodeId) (w : WrapperNode) (leaf f : DeclId)
      (k : Callable), s.bind [1, 3] = .ok b ∧ b.tree.kind? q = some (.wrapper w) ∧ b.tree.decl? q = some leaf ∧
      f ∈ s.graph.unimplementedPureVirtuals leaf ∧ s.graph.callable? f = some k ∧
      k.isStatic = false ∧ s.isExportable f = .ok true ∧ s.graph.Ordinary f ∧
      f ∉ s.graph.members leaf ∧ k.kind = .memberFunction ∧
      ∃ n ∈ b.tree.children q, s.Overrides b.tree n f := by
  let s : BindingSetup := { graph := pureBase "call" .memberFunction, options := {} }
  let k : Callable := {
    kind := .memberFunction, returnType := some (.fundamental .int), virtuality := .pure }
  obtain ⟨b, hb, htree⟩ := Except.exists_eq_ok_of_any (x := s.bind [1, 3])
    (p := fun b => b.tree.kind? 10 = some (.wrapper ⟨"Leaf_wrapper", "Leaf_wrapper", "::Leaf"⟩) ∧
      b.tree.decl? 10 = some 3) (by decide +kernel)
  obtain ⟨hwrapper, hleaf⟩ := of_decide_eq_true htree
  have hf : 2 ∈ s.graph.unimplementedPureVirtuals 3 := by decide +kernel
  have hk : s.graph.callable? 2 = some k := by decide +kernel
  have hexportable : s.isExportable 2 = .ok true := by decide +kernel
  have hordinary : s.graph.Ordinary 2 := ⟨by decide +kernel, by decide +kernel⟩
  have hown : 2 ∉ s.graph.members 3 := by decide +kernel
  refine ⟨s, b, 10, _, 3, 2, k, hb, hwrapper, hleaf, hf, hk, rfl, hexportable, hordinary, hown,
    rfl, ?_⟩
  have hiff := (overrides_unimplemented_iff hb hwrapper hleaf).2 2 k hf hk rfl hexportable hordinary
  rw [if_neg hown] at hiff
  exact hiff.mpr rfl

/-- An inherited call operator is not: the wrapper class of the heir stays abstract. -/
theorem bind_leaves_callOperator : ∃ (s : BindingSetup) (b : Binder) (q : NodeId) (w : WrapperNode)
    (leaf f : DeclId), s.graph.validate = .ok () ∧ s.bind [1, 3] = .ok b ∧
      b.tree.kind? q = some (.wrapper w) ∧ b.tree.decl? q = some leaf ∧
      f ∈ s.graph.unimplementedPureVirtuals leaf ∧
      (s.graph.callable? f).any (·.kind == .memberOperator "()") ∧
      s.graph.isExcluded f = .ok false ∧ s.isExportable f = .ok true ∧
      ¬ ∃ n ∈ b.tree.children q, s.Overrides b.tree n f := by
  let s : BindingSetup := { graph := pureBase "operator()" (.memberOperator "()"), options := {} }
  obtain ⟨b, hb, htree⟩ := Except.exists_eq_ok_of_any (x := s.bind [1, 3])
    (p := fun b => b.tree.kind? 10 = some (.wrapper ⟨"Leaf_wrapper", "Leaf_wrapper", "::Leaf"⟩) ∧
      b.tree.decl? 10 = some 3 ∧ ∀ n ∈ b.tree.children 10,
        (b.tree.decl? n).all fun h => !s.graph.sameSignature h 2) (by decide +kernel)
  obtain ⟨hwrapper, hleaf, hnone⟩ := of_decide_eq_true htree
  refine ⟨s, b, 10, _, 3, 2, by decide +kernel, hb, hwrapper, hleaf, by decide +kernel,
    by decide +kernel, by decide +kernel, by decide +kernel, ?_⟩
  rintro ⟨n, hn, h, kind, hdecl, hsame, -⟩
  have hall := hnone n hn
  rw [hdecl, Option.all_some, hsame] at hall
  cases hall

end BindingSetup

end Bindery
