import Bindery.Analysis.Policy
import Bindery.Proofs.Decl.Qualifiers

/-!
# The policies of the default chain

The rules for values, for constant references and wide C strings, and for untyped pointers look at
the type of the result alone.  The rule for index operators comes last and is meant for references
into the object.  It does not look whether the result is one: whatever else an index operator hands
out, be it a pointer, a type known by name alone or an array, is given the policy of a reference to
a class.

## Main definitions

* `CppType.PassesAsValue` — the results that need no policy.
* `CppType.Unowned` — the results whose type does not tell who owns them.
* `DeclGraph.RefersToPlain` — a reference to a fundamental type or an enumeration.
* `DeclGraph.promisedPolicy` — the policy that a function should have, decided by its result.

## Main results

* `CppType.unowned_iff` — the shapes of unowned results.
* `PolicyRule.resolveFirst_chain`, `PolicyRule.resolveFirst_chain_unowned` — the four rules as one
  decision.
* `DeclGraph.policy?_eq_promised_iff` — **the chain keeps the promise except for index operators
  with unowned results**, which it takes for references into the object.
-/

namespace Bindery

open CppType (IsCv)

variable {g : DeclGraph} {c : Callable} {t u : CppType} {id : DeclId}

/-! ### Kinds of results -/

namespace CppType

/-- A fundamental type, a declared type or a C string: such results need no policy. -/
inductive PassesAsValue (t : CppType) : Prop
  | fundamental {f : Fundamental} : IsCv (.fundamental f) t → PassesAsValue t
  | declared {id : DeclId} : IsCv (.declared id) t → PassesAsValue t
  | cString : PointsToConst .char t → PassesAsValue t

/-- No reference, and nothing that can be handed out by value or as an untyped pointer: the type
does not tell who owns the result. -/
structure Unowned (t : CppType) : Prop where
  noReference : ¬ t.Refers
  noValue : ¬ t.PassesAsValue
  noWideString : ¬ t.PointsToConst .wChar
  noVoidPointer : ¬ t.PointsToVoid

theorem isValue_iff : PolicyRule.isValue t ↔ t.PassesAsValue := by
  unfold PolicyRule.isValue
  rw [Bool.or_eq_true, isPointerToConst_iff]
  constructor
  · rintro (h | h)
    · split at h
      · next hf => exact .fundamental (isCv_iff.mpr hf)
      · next hid => exact .declared (isCv_iff.mpr hid)
      · cases h
    · exact .cString h
  · rintro (h | h | h)
    · exact .inl (by rw [isCv_iff.mp h])
    · exact .inl (by rw [isCv_iff.mp h])
    · exact .inr h

instance : Decidable t.PassesAsValue := decidable_of_iff _ isValue_iff

theorem RefersToConst.refers (h : t.RefersToConst) : t.Refers :=
  have ⟨_, hu⟩ := h
  ⟨_, hu⟩

theorem unowned_of_core {core : CppType} (h : IsCv core t) (hpointer : ∀ u, core ≠ pointer u)
    (hreference : ∀ u, core ≠ reference u) (hfundamental : ∀ f, core ≠ fundamental f)
    (hdeclared : ∀ id, core ≠ declared id) : t.Unowned where
  noReference := fun ⟨u, hu⟩ => hreference u (h.core_eq hu)
  noValue := by
    rintro (hf | hid | ⟨u, hu, -⟩)
    · exact hfundamental _ (h.core_eq hf)
    · exact hdeclared _ (h.core_eq hid)
    · exact hpointer _ (h.core_eq hu)
  noWideString := fun ⟨_, hu, _⟩ => hpointer _ (h.core_eq hu)
  noVoidPointer := fun ⟨u, hu, _⟩ => hpointer u (h.core_eq hu)

/-- The shapes of unowned results. -/
theorem unowned_iff : t.Unowned ↔ (∃ name, IsCv (named name) t) ∨
    (∃ base size, IsCv (array base size) t) ∨
    (∃ result args, IsCv (functionPointer result args) t) ∨
    ∃ base, IsCv (pointer base) t ∧ ¬ IsCv void base ∧
      ∀ u, base = const u → ¬ IsCv (fundamental .char) u ∧ ¬ IsCv (fundamental .wChar) u := by
  constructor
  · intro h
    have hcore := isCv_removeCv t
    have hplain := unqualified_removeCv t
    generalize t.removeCv = core at hcore hplain
    cases core with
    | fundamental f => exact absurd (.fundamental hcore) h.noValue
    | declared id => exact absurd (.declared hcore) h.noValue
    | named name => exact .inl ⟨name, hcore⟩
    | pointer base =>
      refine .inr (.inr (.inr ⟨base, hcore, fun hvoid => h.noVoidPointer ⟨base, hcore, hvoid⟩, ?_⟩))
      rintro u rfl
      exact ⟨fun hchar => h.noValue (.cString ⟨u, hcore, hchar⟩),
        fun hwide => h.noWideString ⟨u, hcore, hwide⟩⟩
    | reference base => exact absurd ⟨base, hcore⟩ h.noReference
    | const base => exact hplain.elim
    | volatile base => exact hplain.elim
    | array base size => exact .inr (.inl ⟨base, size, hcore⟩)
    | functionPointer result args => exact .inr (.inr (.inl ⟨result, args, hcore⟩))
  · rintro (⟨name, h⟩ | ⟨base, size, h⟩ | ⟨result, args, h⟩ | ⟨base, h, hvoid, hconst⟩)
    · exact unowned_of_core h nofun nofun nofun nofun
    · exact unowned_of_core h nofun nofun nofun nofun
    · exact unowned_of_core h nofun nofun nofun nofun
    · refine ⟨fun ⟨u, hu⟩ => (nomatch h.core_eq hu), ?_, ?_, ?_⟩
      · rintro (hf | hid | ⟨u, hu, hchar⟩)
        · cases h.core_eq hf
        · cases h.core_eq hid
        · exact (hconst u (pointer.inj (h.core_eq hu))).1 hchar
      · rintro ⟨u, hu, hwide⟩
        exact (hconst u (pointer.inj (h.core_eq hu))).2 hwide
      · rintro ⟨u, hu, huvoid⟩
        exact hvoid (pointer.inj (h.core_eq hu) ▸ huvoid)

end CppType

namespace DeclGraph

/-- A reference to a fundamental type or an enumeration of the graph, under qualifiers. -/
def RefersToPlain (g : DeclGraph) (t : CppType) : Prop :=
  ∃ u, IsCv (.reference u) t ∧
    ((∃ f, IsCv (.fundamental f) u) ∨ ∃ id, IsCv (.declared id) u ∧ g.isEnum id)

theorem refersToPlain_iff : g.RefersToPlain t ↔
    t.Refers ∧ (t.removeReference.isFundamental || g.isEnumType t.removeReference) := by
  rw [Bool.or_eq_true, CppType.isFundamental_iff, isEnumType_iff]
  constructor
  · rintro ⟨u, hu, hplain⟩
    rw [CppType.removeReference_eq hu]
    exact ⟨⟨u, hu⟩, hplain⟩
  · rintro ⟨⟨u, hu⟩, hplain⟩
    rw [CppType.removeReference_eq hu] at hplain
    exact ⟨u, hu, hplain⟩

instance : Decidable (g.RefersToPlain t) := decidable_of_iff _ refersToPlain_iff.symm

end DeclGraph

/-! ### The promise and the rules -/

/-- The operator `[]` of a class. -/
def Callable.IsIndexOperator (c : Callable) : Prop := c.kind = .memberOperator "[]"

instance : Decidable c.IsIndexOperator := inferInstanceAs (Decidable (c.kind = _))

/-- The policy that a function which is no constructor should have. -/
def DeclGraph.promisedPolicy (g : DeclGraph) (c : Callable) : Option CallPolicy :=
  if c.result.PassesAsValue then some .default
  else if c.result.RefersToConst then some .copyConstReference
  else if c.result.PointsToConst .wChar then some .returnByValue
  else if c.result.PointsToVoid then some .returnOpaquePointer
  else if c.IsIndexOperator ∧ c.result.Refers then
    some (if g.RefersToPlain c.result then .copyNonConstReference else .returnInternalReference)
  else none

namespace PolicyRule

theorem resolve_value (h : ¬ c.isConstructor) :
    value.resolve g c = if c.result.PassesAsValue then some .default else none := by
  simp only [resolve, if_neg h, CppType.isValue_iff]

theorem resolve_returnValue (h : ¬ c.isConstructor) : returnValue.resolve g c =
    if c.result.RefersToConst then some .copyConstReference
    else if c.result.PointsToConst .wChar then some .returnByValue else none := by
  simp only [resolve, if_neg h, CppType.isConstReference_iff, CppType.isPointerToConst_iff]

theorem resolve_voidPointer (h : ¬ c.isConstructor) : voidPointer.resolve g c =
    if c.result.PointsToVoid then some .returnOpaquePointer else none := by
  simp only [resolve, Bool.and_eq_true, Bool.not_eq_true', Bool.not_eq_true _ ▸ h, true_and,
    CppType.isVoidPointer_iff]

theorem resolve_indexOperator : indexOperator.resolve g c =
    if c.IsIndexOperator then some (indexPolicy g c.result) else none := by
  rw [resolve]
  split
  · next h => exact (if_pos h).symm
  · next h => exact (if_neg h).symm

/-- What an index operator refers to in its object is copied or lives there.  A reference to a
constant would be copied, too; but the chain does not ask about those. -/
theorem indexPolicy_of_refers (h : t.Refers) (hconst : ¬ t.RefersToConst) : indexPolicy g t =
    if g.RefersToPlain t then .copyNonConstReference else .returnInternalReference := by
  obtain ⟨u, hu⟩ := h
  have hnot : ¬ u.isConst := fun h =>
    have ⟨v, hv⟩ := CppType.isConst_iff.mp h
    hconst ⟨v, hv ▸ hu⟩
  have hplain := DeclGraph.refersToPlain_iff (g := g).trans (and_iff_right ⟨u, hu⟩)
  simp only [indexPolicy, CppType.removeReference_eq hu, hplain, if_neg hnot]

/-- The result of an index operator that is no reference is taken for one to a class. -/
theorem indexPolicy_of_unowned (h : t.Unowned) : indexPolicy g t = .returnInternalReference := by
  have hreferent := CppType.removeReference_eq_removeCv h.noReference
  have hnot : ¬ (t.removeReference.isFundamental || g.isEnumType t.removeReference) := by
    rw [hreferent, Bool.or_eq_true, CppType.isFundamental_iff, DeclGraph.isEnumType_iff]
    simp only [CppType.isCv_iff, CppType.removeCv_removeCv]
    rintro (⟨f, hf⟩ | ⟨id, hid, -⟩)
    · exact h.noValue (.fundamental (CppType.isCv_iff.mpr hf))
    · exact h.noValue (.declared (CppType.isCv_iff.mpr hid))
  exact if_neg hnot

/-- **The chain decides as promised** on all functions but index operators with unowned results. -/
theorem resolveFirst_chain (hcon : ¬ c.isConstructor)
    (h : c.IsIndexOperator → ¬ c.result.Unowned) :
    resolveFirst g chain c = g.promisedPolicy c := by
  simp only [resolveFirst, chain, List.findSome?_cons, List.findSome?_nil, resolve_value hcon,
    resolve_returnValue hcon, resolve_voidPointer hcon, resolve_indexOperator]
  unfold DeclGraph.promisedPolicy
  by_cases hvalue : c.result.PassesAsValue
  · simp only [if_pos hvalue]
  by_cases hconst : c.result.RefersToConst
  · simp only [if_neg hvalue, if_pos hconst]
  by_cases hwide : c.result.PointsToConst .wChar
  · simp only [if_neg hvalue, if_neg hconst, if_pos hwide]
  by_cases hvoid : c.result.PointsToVoid
  · simp only [if_neg hvalue, if_neg hconst, if_neg hwide, if_pos hvoid]
  simp only [if_neg hvalue, if_neg hconst, if_neg hwide, if_neg hvoid]
  by_cases hindex : c.IsIndexOperator
  · -- the result is not unowned, and only a reference is left
    have hrefers : c.result.Refers :=
      Decidable.byContradiction fun hno => h hindex ⟨hno, hvalue, hwide, hvoid⟩
    simp only [if_pos hindex, if_pos (And.intro hindex hrefers),
      indexPolicy_of_refers hrefers hconst]
  · simp only [if_neg hindex, if_neg (mt And.left hindex)]

/-- An index operator with an unowned result is promised no policy and given one. -/
theorem resolveFirst_chain_unowned (hcon : ¬ c.isConstructor) (hindex : c.IsIndexOperator)
    (h : c.result.Unowned) : g.promisedPolicy c = none ∧
      resolveFirst g chain c = some .returnInternalReference := by
  have hnoConst : ¬ c.result.RefersToConst := mt CppType.RefersToConst.refers h.noReference
  constructor
  · rw [DeclGraph.promisedPolicy, if_neg h.noValue, if_neg hnoConst, if_neg h.noWideString,
      if_neg h.noVoidPointer, if_neg (mt And.right h.noReference)]
  · simp only [resolveFirst, chain, List.findSome?_cons, resolve_value hcon, if_neg h.noValue,
      resolve_returnValue hcon, if_neg hnoConst, if_neg h.noWideString, resolve_voidPointer hcon,
      if_neg h.noVoidPointer, resolve_indexOperator, if_pos hindex, indexPolicy_of_unowned h]

end PolicyRule

namespace DeclGraph

theorem policy?_of_unset (hc : g.callable? id = some c) (hunset : (g.config id).callPolicy = none)
    (rules : List PolicyRule) : g.policy? rules id = PolicyRule.resolveFirst g rules c := by
  rw [policy?, hunset, hc]
  rfl

/-- **A function without a policy of its own gets the promised one unless it is an index operator
with an unowned result**; such an operator is promised none, and its result is said to live in the
object. -/
theorem policy?_eq_promised_iff (hc : g.callable? id = some c) (hcon : ¬ c.isConstructor)
    (hunset : (g.config id).callPolicy = none) :
    (g.policy? PolicyRule.chain id = g.promisedPolicy c ↔
      ¬ (c.IsIndexOperator ∧ c.result.Unowned)) ∧
    (c.IsIndexOperator → c.result.Unowned → g.promisedPolicy c = none ∧
      g.policy? PolicyRule.chain id = some .returnInternalReference) := by
  rw [policy?_of_unset hc hunset]
  refine ⟨⟨?_, fun h => ?_⟩, PolicyRule.resolveFirst_chain_unowned hcon⟩
  · rintro heq ⟨hindex, hunowned⟩
    obtain ⟨hpromised, hgiven⟩ :=
      PolicyRule.resolveFirst_chain_unowned (g := g) hcon hindex hunowned
    exact nomatch hgiven.symm.trans (heq.trans hpromised)
  · exact PolicyRule.resolveFirst_chain hcon fun hindex hunowned => h ⟨hindex, hunowned⟩

/-! ### Index operators -/

/-- An index operator with the given result. -/
def indexOperator (result : CppType) : Callable where
  kind := .memberOperator "[]"
  returnType := some result
  args := [{ name := "i", type := .fundamental .int }]

/-- A class with an index operator of the given result. -/
def indexed (result : CppType) : DeclGraph :=
  ⟨#[{ name := "::", kind := .ns [1] },
    { name := "List", kind := .cls { members := [2] }, parent := some DeclGraph.root },
    { name := "operator[]", kind := .callable (indexOperator result), parent := some 1 }]⟩

/-- A number that an index operator refers to is copied. -/
theorem policy?_eq_promised_number :
    let t : CppType := .reference (.fundamental .int)
    (indexed t).callable? 2 = some (indexOperator t) ∧ ¬ (indexOperator t).isConstructor ∧
      ((indexed t).config 2).callPolicy = none ∧ ¬ (indexOperator t).result.Unowned ∧
      (indexed t).policy? PolicyRule.chain 2 = some .copyNonConstReference := by
  intro t
  have hcallable : (indexed t).callable? 2 = some (indexOperator t) := rfl
  have hcon : ¬ (indexOperator t).isConstructor := by decide
  have hunset : ((indexed t).config 2).callPolicy = none := rfl
  have howned : ¬ (indexOperator t).result.Unowned :=
    fun h => h.noReference ⟨.fundamental .int, .plain trivial⟩
  have hpromised : (indexed t).promisedPolicy (indexOperator t) = some .copyNonConstReference := by
    decide +kernel
  obtain ⟨hiff, -⟩ := policy?_eq_promised_iff hcallable hcon hunset
  exact ⟨hcallable, hcon, hunset, howned, (hiff.mpr fun h => howned h.2).trans hpromised⟩

/-- **A pointer that an index operator hands out is said to live in the object**, although no policy
is promised for it. -/
theorem policy?_ne_promised_pointer :
    let t : CppType := .pointer (.fundamental .int)
    (indexed t).callable? 2 = some (indexOperator t) ∧ ¬ (indexOperator t).isConstructor ∧
      ((indexed t).config 2).callPolicy = none ∧ (indexOperator t).result.Unowned ∧
      (indexed t).promisedPolicy (indexOperator t) = none ∧
      (indexed t).policy? PolicyRule.chain 2 = some .returnInternalReference := by
  intro t
  have hvoid : ¬ IsCv .void (.fundamental .int) := fun h => nomatch CppType.isCv_iff.mp h
  have hunowned : (indexOperator t).result.Unowned :=
    CppType.unowned_iff.mpr (.inr (.inr (.inr ⟨_, .plain trivial, hvoid, nofun⟩)))
  have hpolicies : (indexed t).promisedPolicy (indexOperator t) = none ∧
      (indexed t).policy? PolicyRule.chain 2 = some .returnInternalReference := by
    decide +kernel
  exact ⟨rfl, by decide, rfl, hunowned, hpolicies⟩

end DeclGraph

end Bindery
