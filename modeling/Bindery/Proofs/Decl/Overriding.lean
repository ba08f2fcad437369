import Bindery.Decl.Hierarchy
import Mathlib.Data.List.Basic

/-!
# Functions of one signature

Functions of one signature hide or override each other along a hierarchy.  Signatures are compared
by name, constness and parameter types, so that having one signature is an equivalence among
functions.

## Main definitions

* `DeclGraph.declares` — a class declares a function with a given signature.

## Main results

* `sameSignature_symm`, `sameSignature_trans`, `sameSignature_self` — an equivalence.
* `nearest_of_unimplemented` — **what a class leaves unimplemented is nearest of its signature.**
-/

namespace Bindery.DeclGraph

variable {g : DeclGraph} {a b c f x y owner : DeclId} {found nearer classes : List DeclId}

/-! ### Signatures -/

theorem mem_callables {p : DeclId × Callable} :
    p ∈ g.callables c ↔ p.1 ∈ g.members c ∧ g.callable? p.1 = some p.2 := by
  unfold callables
  rw [List.mem_filterMap]
  constructor
  · rintro ⟨m, hm, h⟩
    obtain ⟨k, hk, rfl⟩ := Option.map_eq_some_iff.mp h
    exact ⟨hm, hk⟩
  · rintro ⟨hm, h⟩
    exact ⟨p.1, hm, by rw [h]; rfl⟩

theorem mem_map_callables :
    f ∈ (g.callables c).map (·.1) ↔ f ∈ g.members c ∧ (g.callable? f).isSome := by
  rw [List.mem_map]
  constructor
  · rintro ⟨p, hp, rfl⟩
    obtain ⟨hm, h⟩ := mem_callables.mp hp
    exact ⟨hm, by rw [h]; rfl⟩
  · rintro ⟨hm, h⟩
    obtain ⟨k, hk⟩ := Option.isSome_iff_exists.mp h
    exact ⟨(f, k), mem_callables.mpr ⟨hm, hk⟩, rfl⟩

theorem sameSignature_iff : g.sameSignature a b ↔
    ∃ ca cb, g.callable? a = some ca ∧ g.callable? b = some cb ∧
      g.name a = g.name b ∧ ca.isConst = cb.isConst ∧ ca.argTypes = cb.argTypes := by
  unfold sameSignature
  cases g.callable? a with
  | none => simp
  | some ca =>
    cases g.callable? b with
    | none => simp
    | some cb => simp [and_assoc]

theorem sameSignature_symm (h : g.sameSignature a b) : g.sameSignature b a := by
  obtain ⟨ca, cb, ha, hb, hname, hconst, hargs⟩ := sameSignature_iff.mp h
  exact sameSignature_iff.mpr ⟨cb, ca, hb, ha, hname.symm, hconst.symm, hargs.symm⟩

theorem sameSignature_trans (h : g.sameSignature a b) (h' : g.sameSignature b c) :
    g.sameSignature a c := by
  obtain ⟨ca, cb, ha, hb, hname, hconst, hargs⟩ := sameSignature_iff.mp h
  obtain ⟨cb', cc, hb', hc, hname', hconst', hargs'⟩ := sameSignature_iff.mp h'
  obtain rfl : cb = cb' := Option.some.inj (hb.symm.trans hb')
  exact sameSignature_iff.mpr
    ⟨ca, cc, ha, hc, hname.trans hname', hconst.trans hconst', hargs.trans hargs'⟩

/-- A function has its own signature. -/
theorem sameSignature_self (h : (g.callable? a).isSome) : g.sameSignature a a := by
  obtain ⟨ca, ha⟩ := Option.isSome_iff_exists.mp h
  exact sameSignature_iff.mpr ⟨ca, ca, ha, ha, rfl, rfl, rfl⟩

/-- The class declares a function with the signature of `f`. -/
def declares (g : DeclGraph) (cls f : DeclId) : Bool :=
  (g.callables cls).any fun c => g.sameSignature c.1 f

theorem declares_iff : g.declares c f ↔ ∃ x ∈ g.members c, g.sameSignature x f := by
  unfold declares
  rw [List.any_eq_true]
  constructor
  · rintro ⟨p, hp, hsame⟩
    exact ⟨p.1, (mem_callables.mp hp).1, hsame⟩
  · rintro ⟨x, hx, hsame⟩
    obtain ⟨k, -, hk, -⟩ := sameSignature_iff.mp hsame
    exact ⟨(x, k), mem_callables.mpr ⟨hx, hk⟩, hsame⟩

theorem declares_of_sameSignature (h : g.declares c a) (hab : g.sameSignature a b) :
    g.declares c b := by
  obtain ⟨x, hx, hxa⟩ := declares_iff.mp h
  exact declares_iff.mpr ⟨x, hx, sameSignature_trans hxa hab⟩

/-! ### Pure virtual functions that are left unimplemented -/

theorem mem_pureVirtuals : f ∈ g.pureVirtuals c ↔
    f ∈ g.members c ∧ ∃ k, g.callable? f = some k ∧ k.virtuality = .pure := by
  unfold pureVirtuals
  rw [List.mem_map]
  constructor
  · rintro ⟨p, hp, rfl⟩
    obtain ⟨hp, hpure⟩ := List.mem_filter.mp hp
    obtain ⟨hm, h⟩ := mem_callables.mp hp
    exact ⟨hm, p.2, h, by simpa using hpure⟩
  · rintro ⟨hm, k, hk, hpure⟩
    refine ⟨(f, k), List.mem_filter.mpr ⟨mem_callables.mpr ⟨hm, hk⟩, ?_⟩, rfl⟩
    simpa using hpure

theorem implements_iff : g.implements c f ↔
    ∃ x k, (x, k) ∈ g.callables c ∧ k.virtuality ≠ .pure ∧ g.sameSignature f x := by
  unfold implements
  rw [List.any_eq_true]
  constructor
  · rintro ⟨⟨x, k⟩, hx, h⟩
    rw [Bool.and_eq_true, bne_iff_ne] at h
    exact ⟨x, k, hx, h⟩
  · rintro ⟨x, k, hx, h⟩
    refine ⟨(x, k), hx, ?_⟩
    rw [Bool.and_eq_true, bne_iff_ne]
    exact h

theorem implements_of_sameSignature (h : g.implements c x) (hxy : g.sameSignature x y) :
    g.implements c y := by
  obtain ⟨z, k, hz, hpure, hxz⟩ := implements_iff.mp h
  exact implements_iff.mpr
    ⟨z, k, hz, hpure, sameSignature_trans (sameSignature_symm hxy) hxz⟩

/-- What the pure virtual functions of one class add to those found before. -/
def addUnimplemented (g : DeclGraph) (nearer found pures : List DeclId) : List DeclId :=
  pures.foldl (fun found f =>
    if nearer.any (g.implements · f) || found.any (g.sameSignature · f) then found
    else found ++ [f]) found

theorem unimplementedFrom_cons (nearer found : List DeclId) (owner : DeclId)
    (rest : List DeclId) :
    g.unimplementedFrom nearer found (owner :: rest) =
      g.unimplementedFrom (nearer ++ [owner])
        (g.addUnimplemented nearer found (g.pureVirtuals owner)) rest := rfl

theorem subset_addUnimplemented (nearer : List DeclId) : ∀ (pures found : List DeclId),
    found ⊆ g.addUnimplemented nearer found pures
  | [], found => List.Subset.refl found
  | f :: pures, found => by
    refine List.Subset.trans ?_ (subset_addUnimplemented nearer pures _)
    dsimp only
    split
    · exact List.Subset.refl found
    · exact List.subset_append_left found [f]

/-- A function is added if no nearer class implements it and none of its signature was found. -/
theorem of_mem_addUnimplemented : ∀ {pures found : List DeclId},
    f ∈ g.addUnimplemented nearer found pures → f ∉ found →
      f ∈ pures ∧ (∀ a ∈ nearer, ¬ g.implements a f) ∧ ∀ x ∈ found, ¬ g.sameSignature x f
  | [], _, h, hnot => absurd h hnot
  | p :: pures, found, h, hnot => by
    rw [addUnimplemented, List.foldl_cons] at h
    split at h
    · obtain ⟨hf, hrest⟩ := of_mem_addUnimplemented h hnot
      exact ⟨List.mem_cons_of_mem p hf, hrest⟩
    · next hfree =>
      simp only [Bool.or_eq_true, List.any_eq_true, not_or, not_exists, not_and] at hfree
      by_cases hfp : f = p
      · subst hfp
        exact ⟨List.mem_cons_self, hfree.1, hfree.2⟩
      · obtain ⟨hf, himplements, hsame⟩ := of_mem_addUnimplemented h (by simp [hnot, hfp])
        exact ⟨List.mem_cons_of_mem p hf, himplements,
          fun x hx => hsame x (List.mem_append_left [p] hx)⟩

/-- Where no nearer class implements it, a pure virtual function is found, or one of its
signature. -/
theorem exists_mem_addUnimplemented : ∀ {pures : List DeclId} (found : List DeclId), f ∈ pures →
    (g.callable? f).isSome → (∀ a ∈ nearer, ¬ g.implements a f) →
    ∃ x ∈ g.addUnimplemented nearer found pures, g.sameSignature x f
  | p :: pures, found, hf, hcallable, hnot => by
    rw [addUnimplemented, List.foldl_cons]
    rcases List.mem_cons.mp hf with rfl | hf
    · have hkept := subset_addUnimplemented (g := g) nearer pures
      split
      · next hfound =>
        simp only [Bool.or_eq_true, List.any_eq_true] at hfound
        obtain ⟨x, hx, hsame⟩ := hfound.resolve_left fun ⟨a, ha, h⟩ => hnot a ha h
        exact ⟨x, hkept found hx, hsame⟩
      · exact ⟨f, hkept _ (by simp), sameSignature_self hcallable⟩
    · exact exists_mem_addUnimplemented _ hf hcallable hnot

/-- What is found in a hierarchy is a pure virtual function of one of its classes, the nearest of
its signature, which no class in front of the hierarchy implements and in front of which none of its
signature was found. -/
theorem of_mem_unimplementedFrom : ∀ {classes nearer found : List DeclId},
    f ∈ g.unimplementedFrom nearer found classes → f ∉ found →
      (∃ front owner back, classes = front ++ owner :: back ∧ f ∈ g.pureVirtuals owner ∧
        ∀ a ∈ front, ¬ g.declares a f) ∧
      (∀ a ∈ nearer, ¬ g.implements a f) ∧ ∀ x ∈ found, ¬ g.sameSignature x f
  | [], _, _, h, hnot => absurd h hnot
  | owner :: rest, nearer, found, h, hnot => by
    rw [unimplementedFrom_cons] at h
    by_cases hadded : f ∈ g.addUnimplemented nearer found (g.pureVirtuals owner)
    · obtain ⟨hpure, himplements, hsame⟩ := of_mem_addUnimplemented hadded hnot
      exact ⟨⟨[], owner, rest, rfl, hpure, fun _ ha => (nomatch ha)⟩, himplements, hsame⟩
    · obtain ⟨⟨front, o, back, rfl, hpure, hfront⟩, himplements, hsame⟩ :=
        of_mem_unimplementedFrom h hadded
      have hnearer : ∀ a ∈ nearer, ¬ g.implements a f :=
        fun a ha => himplements a (List.mem_append_left _ ha)
      -- a function of the signature in `owner` would implement `f`, or would have been found itself
      have howner : ¬ g.declares owner f := by
        intro hdeclares
        obtain ⟨x, hx, hxf⟩ := declares_iff.mp hdeclares
        obtain ⟨k, -, hk, -⟩ := sameSignature_iff.mp hxf
        by_cases hkpure : k.virtuality = .pure
        · obtain ⟨y, hy, hyx⟩ : ∃ y ∈ g.addUnimplemented nearer found (g.pureVirtuals owner),
              g.sameSignature y x :=
            exists_mem_addUnimplemented found (mem_pureVirtuals.mpr ⟨hx, k, hk, hkpure⟩)
              (by rw [hk]; rfl) fun a ha h => hnearer a ha (implements_of_sameSignature h hxf)
          exact hsame y hy (sameSignature_trans hyx hxf)
        · exact himplements owner (by simp)
            (implements_iff.mpr ⟨x, k, mem_callables.mpr ⟨hx, hk⟩, hkpure, sameSignature_symm hxf⟩)
      refine ⟨⟨owner :: front, o, back, rfl, hpure, ?_⟩, hnearer,
        fun x hx => hsame x (subset_addUnimplemented nearer _ found hx)⟩
      rintro a (_ | ⟨_, ha⟩)
      exacts [howner, hfront a ha]

/-- **What a class leaves unimplemented is nearest of its signature**: no class in front of that of
the function declares the signature, be it with an implementation or without one. -/
theorem nearest_of_unimplemented (h : f ∈ g.unimplementedPureVirtuals c) :
    ∃ front owner back, c :: g.recursiveBases c = front ++ owner :: back ∧
      f ∈ g.pureVirtuals owner ∧ ∀ a ∈ front, ¬ g.declares a f :=
  (of_mem_unimplementedFrom h List.not_mem_nil).1

end Bindery.DeclGraph
