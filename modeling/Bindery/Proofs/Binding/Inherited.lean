import Bindery.Binding.Module
import Bindery.Decl.Validation
import Bindery.Proofs.Computation
import Bindery.Proofs.Decl.Overriding

/-!
# Inherited functions

For a class those functions are bound again that its bases offer to their heirs.  A function that is
offered hides those of its signature farther away; one that is declared, but not offered, hides
nothing, unless the class itself declares it.  So the function that is bound need not be the
nearest of its signature.

## Main definitions

* `DeclGraph.DeclaredNearest` — no class in front of that of a function declares its signature.
* `BindingSetup.Offers` — a base offers a function to its heirs.
* `BindingSetup.HidersOffer` — what hides an offered function comes with an offer itself.

## Main results

* `exists_inherited` — of each signature that is offered one function is bound.
* `inheritedMethods_nearest_iff` — **the inherited functions are the nearest of their signatures
  exactly if what hides an offered function comes with an offer itself.**
-/

namespace Bindery

/-- An entry of a list that is put together from parts stands in one of the parts. -/
private theorem exists_part_of_flatMap_eq {α β : Type} {f : α → List β} {y : β} :
    ∀ {l : List α} {ys zs : List β}, l.flatMap f = ys ++ y :: zs →
      ∃ front a back ys' zs', l = front ++ a :: back ∧ f a = ys' ++ y :: zs' ∧
        ys = front.flatMap f ++ ys'
  | [], ys, zs, h => by
    have hlen := congrArg List.length h
    rw [List.flatMap_nil, List.length_append, List.length_cons, List.length_nil] at hlen
    omega
  | a :: l, ys, zs, h => by
    rw [List.flatMap_cons, List.append_eq_append_iff] at h
    rcases h with ⟨ys', rfl, hrest⟩ | ⟨zs', hhere, hrest⟩
    · obtain ⟨front, b, back, ys'', zs', rfl, hb, rfl⟩ := exists_part_of_flatMap_eq hrest
      exact ⟨a :: front, b, back, ys'', zs', rfl, hb, by rw [List.flatMap_cons, List.append_assoc]⟩
    · cases zs' with
      | nil =>
        obtain ⟨front, b, back, ys'', zs', rfl, hb, hys⟩ :=
          exists_part_of_flatMap_eq (show l.flatMap f = [] ++ y :: zs from hrest.symm)
        refine ⟨a :: front, b, back, ys'', zs', rfl, hb, ?_⟩
        rw [List.append_nil] at hhere
        rw [List.flatMap_cons, List.append_assoc, ← hys, List.append_nil, hhere]
      | cons z zs' =>
        obtain ⟨rfl, -⟩ := List.cons.inj hrest
        exact ⟨[], a, l, ys, zs', rfl, hhere, rfl⟩

namespace DeclGraph

/-- The function is declared by a class of the list, and no class in front of that one declares
its signature. -/
def DeclaredNearest (g : DeclGraph) (classes : List DeclId) (f : DeclId) : Prop :=
  ∃ front b back, classes = front ++ b :: back ∧ f ∈ g.members b ∧
    ∀ a ∈ front, ¬ g.declares a f

end DeclGraph

namespace BindingSetup

variable {s : BindingSetup} {cls a b f m x : DeclId} {own found found' : List DeclId}

/-- The base offers the function to its heirs: a member function that Python has to be able to
override or call there, and that takes part in the module. -/
structure Offers (s : BindingSetup) (base f : DeclId) : Prop where
  member : f ∈ s.graph.members base
  inheritable : ∃ c, s.graph.callable? f = some c ∧ c.kind = .memberFunction ∧
    (s.graph.access? f).any (isInheritable · c.virtuality)
  exportable : s.isExportable f = .ok true

/-- Where a base offers a function whose signature a class in front of the base declares, some
class in front of the base offers a function of this signature.  What the heir itself declares does
not count. -/
def HidersOffer (s : BindingSetup) (cls : DeclId) : Prop :=
  ∀ front b back, s.graph.recursiveBases cls = front ++ b :: back →
    ∀ f, s.Offers b f → ¬ s.graph.declares cls f → (∃ a ∈ front, s.graph.declares a f) →
      ∃ a ∈ front, ∃ x, s.Offers a x ∧ s.graph.sameSignature x f

/-! ### The walk over the bases -/

/-- The functions of a base whose access and virtuality let heirs have them. -/
def inheritables (s : BindingSetup) (base : DeclId) : List (DeclId × Callable) :=
  (s.graph.callables base).filter fun (id, c) =>
    c.kind == .memberFunction && (s.graph.access? id).any (isInheritable · c.virtuality)

/-- Takes one more function, if it takes part in the module and none of its signature is there. -/
def inherit (s : BindingSetup) (own found : List DeclId) (p : DeclId × Callable) :
    Except MissingDecl (List DeclId) := do
  unless ← s.isExportable p.1 do return found
  return if (own ++ found).any (s.graph.sameSignature · p.1) then found else found ++ [p.1]

theorem inheritedMethods_eq (s : BindingSetup) (cls : DeclId) :
    s.inheritedMethods cls = ((s.graph.recursiveBases cls).flatMap s.inheritables).foldlM
      (s.inherit ((s.graph.callables cls).map (·.1))) [] := by
  unfold inheritedMethods inheritables
  rw [← List.filter_flatMap]
  rfl

theorem mem_inheritables {p : DeclId × Callable} : p ∈ s.inheritables b ↔
    p.1 ∈ s.graph.members b ∧ s.graph.callable? p.1 = some p.2 ∧ p.2.kind = .memberFunction ∧
      (s.graph.access? p.1).any (isInheritable · p.2.virtuality) := by
  unfold inheritables
  rw [List.mem_filter, DeclGraph.mem_callables, Bool.and_eq_true, beq_iff_eq, and_assoc]

theorem offers_iff : s.Offers b f ↔
    s.isExportable f = .ok true ∧ ∃ c, (f, c) ∈ s.inheritables b := by
  constructor
  · rintro ⟨hm, ⟨c, hc, hkind, haccess⟩, hexportable⟩
    exact ⟨hexportable, c, mem_inheritables.mpr ⟨hm, hc, hkind, haccess⟩⟩
  · rintro ⟨hexportable, c, hmem⟩
    obtain ⟨hm, hc, hkind, haccess⟩ := mem_inheritables.mp hmem
    exact ⟨hm, ⟨c, hc, hkind, haccess⟩, hexportable⟩

theorem inherit_ok {p : DeclId × Callable} (h : s.inherit own found p = .ok found') :
    s.isExportable p.1 = .ok false ∧ found' = found ∨
      s.isExportable p.1 = .ok true ∧
        ((∃ x ∈ own ++ found, s.graph.sameSignature x p.1) ∧ found' = found ∨
          (∀ x ∈ own ++ found, ¬ s.graph.sameSignature x p.1) ∧ found' = found ++ [p.1]) := by
  obtain ⟨exportable, hexportable, h⟩ := Except.bind_eq_ok.mp h
  cases exportable with
  | false => exact .inl ⟨hexportable, (Except.pure_eq_ok.mp h).symm⟩
  | true =>
    refine .inr ⟨hexportable, ?_⟩
    have hfound := Except.pure_eq_ok.mp h
    by_cases hany : (own ++ found).any (s.graph.sameSignature · p.1)
    · rw [if_pos hany] at hfound
      exact .inl ⟨List.any_eq_true.mp hany, hfound.symm⟩
    · rw [if_neg hany] at hfound
      refine .inr ⟨fun x hx hsame => hany (List.any_eq_true.mpr ⟨x, hx, hsame⟩), hfound.symm⟩

/-- What the walk has found among the functions that it has met. -/
structure Inherited (s : BindingSetup) (own : List DeclId) (done : List (DeclId × Callable))
    (found : List DeclId) : Prop where
  /-- Nothing of the signature of a function that was found came before it. -/
  nearest : ∀ m ∈ found, ∃ front c back, done = front ++ (m, c) :: back ∧
    s.isExportable m = .ok true ∧ (∀ x ∈ own, ¬ s.graph.sameSignature x m) ∧
      ∀ p ∈ front, s.isExportable p.1 = .ok true → ¬ s.graph.sameSignature p.1 m
  /-- Of each signature that was met one function is there. -/
  represented : ∀ p ∈ done, (s.graph.callable? p.1).isSome → s.isExportable p.1 = .ok true →
    ∃ x ∈ own ++ found, s.graph.sameSignature x p.1

theorem Inherited.step {done : List (DeclId × Callable)} {p : DeclId × Callable}
    (h : s.Inherited own done found) (hp : s.inherit own found p = .ok found') :
    s.Inherited own (done ++ [p]) found' := by
  have hold : ∀ m ∈ found, ∃ front c back, done ++ [p] = front ++ (m, c) :: back ∧
      s.isExportable m = .ok true ∧ (∀ x ∈ own, ¬ s.graph.sameSignature x m) ∧
        ∀ p ∈ front, s.isExportable p.1 = .ok true → ¬ s.graph.sameSignature p.1 m := by
    intro m hm
    obtain ⟨front, c, back, rfl, hrest⟩ := h.nearest m hm
    exact ⟨front, c, back ++ [p], by rw [List.append_assoc, List.cons_append], hrest⟩
  rcases inherit_ok hp with ⟨hnot, rfl⟩ | ⟨hexportable, ⟨hsome, rfl⟩ | ⟨hnone, rfl⟩⟩
  · refine ⟨hold, fun q hq hcallable hq' => ?_⟩
    rcases List.mem_append.mp hq with hq | hq
    · exact h.represented q hq hcallable hq'
    · rw [List.mem_singleton.mp hq, hnot] at hq'
      cases hq'
  · refine ⟨hold, fun q hq hcallable hq' => ?_⟩
    rcases List.mem_append.mp hq with hq | hq
    · exact h.represented q hq hcallable hq'
    · rw [List.mem_singleton.mp hq]
      exact hsome
  · refine ⟨fun m hm => ?_, fun q hq hcallable hq' => ?_⟩
    · rcases List.mem_append.mp hm with hm | hm
      · exact hold m hm
      · obtain rfl := List.mem_singleton.mp hm
        refine ⟨done, p.2, [], rfl, hexportable,
          fun x hx => hnone x (List.mem_append_left found hx), fun q hq hq' hsame => ?_⟩
        -- one of the signature of `q` is there already, so that `p` would not have been taken
        obtain ⟨k, -, hk, -⟩ := DeclGraph.sameSignature_iff.mp hsame
        obtain ⟨x, hx, hxq⟩ := h.represented q hq (by rw [hk]; rfl) hq'
        exact hnone x hx (DeclGraph.sameSignature_trans hxq hsame)
    · rcases List.mem_append.mp hq with hq | hq
      · obtain ⟨x, hx, hsame⟩ := h.represented q hq hcallable hq'
        exact ⟨x, by rw [← List.append_assoc]; exact List.mem_append_left _ hx, hsame⟩
      · obtain rfl := List.mem_singleton.mp hq
        exact ⟨q.1, by simp, DeclGraph.sameSignature_self hcallable⟩

theorem inherited_of_ok (h : s.inheritedMethods cls = .ok found) :
    s.Inherited ((s.graph.callables cls).map (·.1))
      ((s.graph.recursiveBases cls).flatMap s.inheritables) found := by
  rw [inheritedMethods_eq] at h
  have hstart : s.Inherited ((s.graph.callables cls).map (·.1)) [] [] :=
    ⟨fun _ hm => (nomatch hm), fun _ hp => (nomatch hp)⟩
  exact Except.foldlM_invariant _ (fun _ _ _ _ => Inherited.step) _ [] _ _ hstart h

/-! ### The functions found -/

/-- An inherited function is offered by a base, no base in front of that one offers its signature,
and the class itself does not declare it. -/
theorem inheritedMethods_offered (h : s.inheritedMethods cls = .ok found) (hm : m ∈ found) :
    ¬ s.graph.declares cls m ∧ ∃ front b back, s.graph.recursiveBases cls = front ++ b :: back ∧
      s.Offers b m ∧ ∀ a ∈ front, ∀ x, s.Offers a x → ¬ s.graph.sameSignature x m := by
  obtain ⟨met, c, rest, hdone, hexportable, hown, hmet⟩ := (inherited_of_ok h).nearest m hm
  refine ⟨fun hdeclares => ?_, ?_⟩
  · obtain ⟨x, hx, hsame⟩ := DeclGraph.declares_iff.mp hdeclares
    obtain ⟨k, -, hk, -⟩ := DeclGraph.sameSignature_iff.mp hsame
    exact hown x (DeclGraph.mem_map_callables.mpr ⟨hx, by rw [hk]; rfl⟩) hsame
  · obtain ⟨front, b, back, met', rest', hbases, hb, rfl⟩ := exists_part_of_flatMap_eq hdone
    refine ⟨front, b, back, hbases, offers_iff.mpr ⟨hexportable, c, by rw [hb]; simp⟩, ?_⟩
    intro a ha x hx
    obtain ⟨hx', k, hmem⟩ := offers_iff.mp hx
    exact hmet (x, k) (List.mem_append_left met' (List.mem_flatMap.mpr ⟨a, ha, hmem⟩)) hx'

/-- Of each signature that a base offers one function is inherited, unless the class itself declares
it. -/
theorem exists_inherited (h : s.inheritedMethods cls = .ok found)
    (hb : b ∈ s.graph.recursiveBases cls) (hf : s.Offers b f) (hown : ¬ s.graph.declares cls f) :
    ∃ m ∈ found, s.graph.sameSignature m f := by
  obtain ⟨hexportable, c, hmem⟩ := offers_iff.mp hf
  have hcallable : (s.graph.callable? f).isSome := by rw [(mem_inheritables.mp hmem).2.1]; rfl
  obtain ⟨m, hm, hsame⟩ := (inherited_of_ok h).represented (f, c)
    (List.mem_flatMap.mpr ⟨b, hb, hmem⟩) hcallable hexportable
  refine ⟨m, (List.mem_append.mp hm).resolve_left fun hm => hown ?_, hsame⟩
  exact DeclGraph.declares_iff.mpr ⟨m, (DeclGraph.mem_map_callables.mp hm).1, hsame⟩

/-- If all inherited functions are the nearest of their signatures, whatever hides an offered
function comes with an offer. -/
theorem hidersOffer_of_nearest (h : s.inheritedMethods cls = .ok found)
    (hnearest : ∀ m ∈ found, s.graph.DeclaredNearest (cls :: s.graph.recursiveBases cls) m) :
    s.HidersOffer cls := by
  intro front b back hbases f hf hown ⟨a, ha, hdeclares⟩
  have hb : b ∈ s.graph.recursiveBases cls := by rw [hbases]; simp
  obtain ⟨m, hm, hsame⟩ := exists_inherited h hb hf hown
  obtain ⟨front', b', back', hclasses, hmember, hfront'⟩ := hnearest m hm
  have hnot : a ∉ front' := fun ha' => hfront' a ha'
    (DeclGraph.declares_of_sameSignature hdeclares (DeclGraph.sameSignature_symm hsame))
  cases front' with
  | nil =>
    -- the class itself would declare the function
    obtain ⟨rfl, -⟩ := List.cons.inj hclasses
    exact absurd (DeclGraph.declares_iff.mpr ⟨m, hmember, hsame⟩) hown
  | cons c front' =>
    obtain rfl : cls = c := (List.cons.inj hclasses).1
    rw [List.cons_append, List.cons_inj_right] at hclasses
    obtain ⟨-, -, k, -, -, hoffers, -⟩ := inheritedMethods_offered h hm
    -- the class that hides `f` stands behind the one of `m`, which so comes in front of `b`
    rw [hbases, List.append_eq_append_iff] at hclasses
    rcases hclasses with ⟨more, rfl, -⟩ | ⟨more, rfl, hmore⟩
    · exact absurd (List.mem_cons_of_mem cls (List.mem_append_left more ha)) hnot
    · have hmem : a ∈ more :=
        (List.mem_append.mp ha).resolve_left fun h => hnot (List.mem_cons_of_mem cls h)
      cases more with
      | nil => cases hmem
      | cons d more =>
        obtain ⟨rfl, -⟩ := List.cons.inj hmore
        exact ⟨b', by simp, m, ⟨hmember, hoffers.inheritable, hoffers.exportable⟩, hsame⟩

/-- **The inherited functions are the nearest of their signatures exactly if what hides an offered
function comes with an offer itself.**  In any case the class itself does not declare their
signatures, and no base in front of theirs offers them. -/
theorem inheritedMethods_nearest_iff (h : s.inheritedMethods cls = .ok found) :
    (∀ m ∈ found, ¬ s.graph.declares cls m ∧
      ∃ front b back, s.graph.recursiveBases cls = front ++ b :: back ∧ s.Offers b m ∧
        ∀ a ∈ front, ∀ x, s.Offers a x → ¬ s.graph.sameSignature x m) ∧
    ((∀ m ∈ found, s.graph.DeclaredNearest (cls :: s.graph.recursiveBases cls) m) ↔
      s.HidersOffer cls) := by
  refine ⟨fun m => inheritedMethods_offered h, hidersOffer_of_nearest h, fun hoffer m hm => ?_⟩
  obtain ⟨hown, front, b, back, hbases, hoffers, hfront⟩ := inheritedMethods_offered h hm
  refine ⟨cls :: front, b, back, by rw [hbases]; rfl, hoffers.member, fun a ha hdeclares => ?_⟩
  rcases List.mem_cons.mp ha with rfl | ha
  · exact hown hdeclares
  · obtain ⟨a', ha', x, hx, hsame⟩ := hoffer front b back hbases m hoffers hown ⟨a, ha, hdeclares⟩
    exact hfront a' ha' x hx hsame

/-! ### An implementation that is not offered -/

/-- A pure virtual function of a class, its implementation in an heir, with the given access, and
an heir of that one. -/
def hiddenRun (access : Access) : DeclGraph :=
  ⟨#[{ name := "::", kind := .ns [1, 3, 5] },
    { name := "Base", kind := .cls { members := [2] }, parent := some DeclGraph.root },
    { name := "run", parent := some 1, kind := .callable {
        kind := .memberFunction, returnType := some (.fundamental .int), virtuality := .pure } },
    { name := "Mid", kind := .cls { bases := [{ base := 1 }], members := [4] },
      parent := some DeclGraph.root },
    { name := "run", parent := some 3, access, kind := .callable {
        kind := .memberFunction, returnType := some (.fundamental .int),
        virtuality := .overridable } },
    { name := "Leaf", kind := .cls { bases := [{ base := 3 }] }, parent := some DeclGraph.root }]⟩

/-- A public implementation is what the last class inherits, and the nearest. -/
theorem inheritedMethods_nearest_public :
    ({ graph := hiddenRun .pub, options := {} } : BindingSetup).inheritedMethods 5 = .ok [4] ∧
      ({ graph := hiddenRun .pub, options := {} } : BindingSetup).HidersOffer 5 := by
  have hfound : ({ graph := hiddenRun .pub, options := {} } : BindingSetup).inheritedMethods 5 =
      .ok [4] := by decide +kernel
  refine ⟨hfound, (inheritedMethods_nearest_iff hfound).2.mp fun m hm => ?_⟩
  obtain rfl := List.mem_singleton.mp hm
  exact ⟨[5], 3, [1], by decide +kernel, by decide +kernel, by decide +kernel⟩

/-- A private implementation does not keep the pure virtual function from being inherited: the
wrapper of the last class gets an adapter for the function that the middle class implements. -/
theorem bind_adapts_implemented : ∃ (s : BindingSetup) (b : Binder) (q n : NodeId) (w : WrapperNode)
    (shim : ShimNode) (leaf mid base f : DeclId), s.graph.validate = .ok () ∧
      s.bind [base, mid, leaf] = .ok b ∧
      b.tree.kind? q = some (.wrapper w) ∧ b.tree.decl? q = some leaf ∧ n ∈ b.tree.children q ∧
      b.tree.kind? n = some (.shim shim) ∧ shim.kind = .pureVirtual ∧ b.tree.decl? n = some f ∧
      s.inheritedMethods leaf = .ok [f] ∧ s.graph.recursiveBases leaf = [mid, base] ∧
      f ∈ s.graph.members base ∧ s.graph.implements mid f := by
  let s : BindingSetup := { graph := hiddenRun .priv, options := {} }
  let adapter : ShimNode := {
    kind := .pureVirtual, name := "run", pythonName := "run", classFullName := "::Base"
    returnType := "int" }
  obtain ⟨b, hb, htree⟩ := Except.exists_eq_ok_of_any (x := s.bind [1, 3, 5])
    (p := fun b => b.tree.kind? 11 = some (.wrapper ⟨"Leaf_wrapper", "Leaf_wrapper", "::Leaf"⟩) ∧
      b.tree.decl? 11 = some 5 ∧ 12 ∈ b.tree.children 11 ∧ b.tree.kind? 12 = some (.shim adapter) ∧
      b.tree.decl? 12 = some 2) (by decide +kernel)
  obtain ⟨hwrapper, hleaf, hchild, hshim, hrun⟩ := of_decide_eq_true htree
  refine ⟨s, b, 11, 12, ⟨"Leaf_wrapper", "Leaf_wrapper", "::Leaf"⟩, adapter, 5, 3, 1, 2, ?_⟩
  exact ⟨by decide +kernel, hb, hwrapper, hleaf, hchild, hshim, rfl, hrun, by decide +kernel,
    by decide +kernel, by decide +kernel, by decide +kernel⟩

end BindingSetup

end Bindery
