import Bindery.Proofs.Computation
import Bindery.Transform.Transformer
import Mathlib.Data.List.TakeDrop

/-!
# What transformers do to the two parameter lists

A transformer of one of the five sorts removes its native parameter from both sides; three of the
sorts then insert a parameter in its place.  Everything else a transformer does — temporaries,
results, the expression of the native call — leaves the two parameter lists alone.

## Main definitions

* `SameParams s t` — two states agree on both parameter lists and on where they come from.
* `TransformerSpec.replaces` — the sorts that insert a parameter.
* `Transformer.passed?` — what the override passes to Python in place of the parameter.

## Main results

* `removeArg_ok`, `insertArg_ok` — the state behind a successful edit.
* `apply_ok` — **a transformer removes a parameter, may insert one, and changes nothing else.**
-/

namespace Bindery

/-! ### Single edits -/

namespace TransformState

theorem arg_eq_ok {s : TransformState} {index : Nat} {p : Param} :
    s.arg index = .ok p ↔ ∃ native, index = native + 1 ∧ s.nativeArgs[native]? = some p := by
  cases index with
  | zero => simp [arg]
  | succ native =>
    cases h : s.nativeArgs[native]? with
    | none => simp [arg, h]
    | some q => simp [arg, h]

/-- The state behind the removal of a native parameter. -/
theorem removeArg_ok {s t : TransformState} {native : Nat} (h : s.removeArg (native + 1) = .ok t) :
    ∃ place, s.argIndexMap[native]? = some (some place) ∧
      t = { s with
        exposed := s.exposed.filter (·.1 ≠ native)
        overrideParams := s.overrideParams.eraseIdx place
        argIndexMap := (s.argIndexMap.set native none).map (closeGap place) } := by
  simp only [removeArg, Except.bind_eq_ok] at h
  obtain ⟨-, -, p, -, h⟩ := h
  split at h
  · cases h
  · next place hplace =>
    rw [Except.pure_eq_ok] at h
    refine ⟨place, ?_, h.symm⟩
    cases hm : s.argIndexMap[native]? with
    | none => simp [hm] at hplace
    | some entry => rw [hm, Option.join_some] at hplace; rw [hplace]

/-- The state behind the insertion of a parameter. -/
theorem insertArg_ok {s t : TransformState} {native : Nat} {param : Param} {expr : String}
    (h : s.insertArg (native + 1) param expr = .ok t) :
    t = { s with
      exposed := s.exposed.takeWhile (·.1 ≤ native) ++
        (native, param) :: s.exposed.dropWhile (·.1 ≤ native)
      overrideParams := s.overrideParams.insertIdx (s.overridePlace native) expr
      argIndexMap := s.argIndexMap.map (openGap (s.overridePlace native)) } := by
  simp only [insertArg, Except.bind_eq_ok, Except.pure_eq_ok] at h
  obtain ⟨-, -, p, -, h⟩ := h
  rw [← h]
  simp [List.span_eq_takeWhile_dropWhile]

/-! ### Edits that leave the parameter lists alone -/

/-- Two states with the same native parameters, the same parameters on both sides and the same
places for them, which pass the same number of expressions to the native function. -/
structure SameParams (s t : TransformState) : Prop where
  nativeArgs : t.nativeArgs = s.nativeArgs
  exposed : t.exposed = s.exposed
  overrideParams : t.overrideParams = s.overrideParams
  argIndexMap : t.argIndexMap = s.argIndexMap
  callParams : t.callParams.length = s.callParams.length

theorem SameParams.refl (s : TransformState) : SameParams s s := ⟨rfl, rfl, rfl, rfl, rfl⟩

theorem SameParams.trans {s t u : TransformState} (h : SameParams s t) (k : SameParams t u) :
    SameParams s u where
  nativeArgs := k.nativeArgs.trans h.nativeArgs
  exposed := k.exposed.trans h.exposed
  overrideParams := k.overrideParams.trans h.overrideParams
  argIndexMap := k.argIndexMap.trans h.argIndexMap
  callParams := k.callParams.trans h.callParams

theorem sameParams_declareLocal (s : TransformState) (side : Side) (name : String) (type : CppType)
    (size : Option Nat) (initializer : Option String) :
    SameParams s (s.declareLocal side name type size initializer).2 := by
  cases side <;> exact ⟨rfl, rfl, rfl, rfl, rfl⟩

theorem sameParams_setCallParam {s t : TransformState} {index : Nat} {expr : String}
    (h : s.setCallParam index expr = .ok t) : SameParams s t := by
  simp only [setCallParam, Except.bind_eq_ok, Except.pure_eq_ok] at h
  obtain ⟨-, -, p, -, rfl⟩ := h
  exact ⟨rfl, rfl, rfl, rfl, List.length_set⟩

theorem sameParams_addResult {s t : TransformState} {expr : String} {type : CppType}
    (h : s.addResult expr type = .ok t) : SameParams s t := by
  simp only [addResult, Except.bind_eq_ok, Except.pure_eq_ok] at h
  obtain ⟨-, -, rfl⟩ := h
  exact ⟨rfl, rfl, rfl, rfl, rfl⟩

theorem sameParams_addVirtualResult {s t : TransformState} {index : Nat}
    (h : s.addVirtualResult index = .ok t) : SameParams s t := by
  simp only [addVirtualResult, Except.bind_eq_ok, Except.pure_eq_ok] at h
  obtain ⟨-, -, p, -, rfl⟩ := h
  exact ⟨rfl, rfl, rfl, rfl, rfl⟩

theorem sameParams_freeze (s : TransformState) : SameParams s s.freeze := by
  unfold freeze
  split
  · exact ⟨rfl, rfl, rfl, rfl, rfl⟩
  · have := sameParams_declareLocal s .override "pyresult" objectType none none
    exact ⟨this.nativeArgs, this.exposed, this.overrideParams, this.argIndexMap, this.callParams⟩

end TransformState

/-! ### Transformers -/

/-- The transformer puts a parameter in the place of the one it removes. -/
def TransformerSpec.replaces (spec : TransformerSpec) : Bool :=
  match spec.kind with
  | .input | .inout | .inputArray _ => true
  | .output | .outputArray _ => false

/-- What the override passes to Python in place of the native parameter, if anything. -/
def Transformer.passed? (t : Transformer) (p : Param) : Option String :=
  match t.action with
  | .input | .inout .. => some (if p.type.isPointer then "*" ++ p.name else p.name)
  | .inputArray _ _ _ _ list => some list
  | .output .. | .outputArray .. => none

namespace TransformerSpec

open TransformState

theorem indirectArg_ok {spec : TransformerSpec} {s : TransformState} {p : Param}
    (h : spec.indirectArg s = .ok p) : s.arg spec.arg = .ok p := by
  simp only [indirectArg, Except.bind_eq_ok] at h
  obtain ⟨q, hq, h⟩ := h
  split at h
  · rw [Except.pure_eq_ok] at h
    rw [← h]
    exact hq
  · cases h

theorem arrayArg_ok {spec : TransformerSpec} {s : TransformState} {p : Param}
    (h : spec.arrayArg s = .ok p) : s.arg spec.arg = .ok p := by
  simp only [arrayArg, Except.bind_eq_ok] at h
  obtain ⟨q, hq, h⟩ := h
  split at h
  · rw [Except.pure_eq_ok] at h
    rw [← h]
    exact hq
  · cases h

/-- The states that a transformer with the native parameter `p` leads to from the one behind its
removal: with `text` the override passes that in place of the parameter. -/
def Filled (spec : TransformerSpec) (r t : TransformState) : Option String → Prop
  | none => SameParams r t
  | some text => ∃ r' param u, SameParams r r' ∧ r'.insertArg spec.arg param text = .ok u ∧
      SameParams u t

theorem passByValue_ok {index : Nat} {p : Param} {s t : TransformState}
    (h : passByValue index p s = .ok t) :
    ∃ r param u, s.removeArg index = .ok r ∧
      r.insertArg index param (if p.type.isPointer then "*" ++ p.name else p.name) = .ok u ∧
      SameParams u t := by
  simp only [passByValue, Except.bind_eq_ok] at h
  obtain ⟨r, hr, u, hu, h⟩ := h
  exact ⟨r, _, u, hr, hu, sameParams_setCallParam h⟩

/-- A transformer has taken its native parameter from both lists, has put a parameter in its place
if it is one that does, and has changed nothing else about them. -/
def Handles (spec : TransformerSpec) (s : TransformState) (a : Transformer) (t : TransformState) :
    Prop :=
  ∃ p r, s.arg spec.arg = .ok p ∧ s.removeArg spec.arg = .ok r ∧
    (a.passed? p).isSome = spec.replaces ∧ Filled spec r t (a.passed? p)

theorem Handles.nativeArgs {spec : TransformerSpec} {s t : TransformState} {a : Transformer}
    (h : Handles spec s a t) : t.nativeArgs = s.nativeArgs := by
  obtain ⟨p, r, hp, hr, -, hfill⟩ := h
  obtain ⟨k, hk, -⟩ := arg_eq_ok.mp hp
  rw [hk] at hr
  obtain ⟨place, -, rfl⟩ := removeArg_ok hr
  cases hpassed : a.passed? p with
  | none =>
    rw [hpassed] at hfill
    exact hfill.nativeArgs
  | some text =>
    rw [hpassed] at hfill
    obtain ⟨r', param, u, hr', hi, hu⟩ := hfill
    rw [hk] at hi
    rw [hu.nativeArgs, insertArg_ok hi]
    exact hr'.nativeArgs

theorem applyOutput_ok {spec : TransformerSpec} {s t : TransformState} {action : TransformerAction}
    (hk : spec.kind = .output) (h : spec.applyOutput s = .ok (action, t)) :
    Handles spec s ⟨spec, action⟩ t := by
  simp only [applyOutput, Except.bind_eq_ok, Except.pure_eq_ok, Prod.mk.injEq] at h
  obtain ⟨p, hp, r, hr, u₁, h₁, u₂, h₂, u₃, h₃, rfl, rfl⟩ := h
  refine ⟨p, r, indirectArg_ok hp, hr, by simp [Transformer.passed?, replaces, hk], ?_⟩
  exact (sameParams_declareLocal ..).trans <| (sameParams_setCallParam h₁).trans <|
    (sameParams_addResult h₂).trans (sameParams_addVirtualResult h₃)

theorem applyInput_ok {spec : TransformerSpec} {s t : TransformState} {action : TransformerAction}
    (hk : spec.kind = .input) (h : spec.applyInput s = .ok (action, t)) :
    Handles spec s ⟨spec, action⟩ t := by
  simp only [applyInput, Except.bind_eq_ok, Except.pure_eq_ok, Prod.mk.injEq] at h
  obtain ⟨p, hp, u₁, h₁, rfl, rfl⟩ := h
  obtain ⟨r, param, u, hr, hu, hsame⟩ := passByValue_ok h₁
  exact ⟨p, r, indirectArg_ok hp, hr, by simp [Transformer.passed?, replaces, hk],
    r, param, u, .refl r, hu, hsame⟩

theorem applyInout_ok {spec : TransformerSpec} {s t : TransformState} {action : TransformerAction}
    (hk : spec.kind = .inout) (h : spec.applyInout s = .ok (action, t)) :
    Handles spec s ⟨spec, action⟩ t := by
  simp only [applyInout, Except.bind_eq_ok, Except.pure_eq_ok, Prod.mk.injEq] at h
  obtain ⟨p, hp, u₁, h₁, u₂, h₂, u₃, h₃, rfl, rfl⟩ := h
  obtain ⟨r, param, u, hr, hu, hsame⟩ := passByValue_ok h₁
  exact ⟨p, r, indirectArg_ok hp, hr, by simp [Transformer.passed?, replaces, hk],
    r, param, u, .refl r, hu,
    hsame.trans ((sameParams_addResult h₂).trans (sameParams_addVirtualResult h₃))⟩

theorem applyInputArray_ok {spec : TransformerSpec} {size : Nat} {s t : TransformState}
    {action : TransformerAction} (hk : spec.kind = .inputArray size)
    (h : spec.applyInputArray size s = .ok (action, t)) : Handles spec s ⟨spec, action⟩ t := by
  simp only [applyInputArray, Except.bind_eq_ok, Except.pure_eq_ok, Prod.mk.injEq] at h
  obtain ⟨p, hp, r, hr, u₁, h₁, u₂, h₂, rfl, rfl⟩ := h
  exact ⟨p, r, arrayArg_ok hp, hr, by simp [Transformer.passed?, replaces, hk],
    _, _, u₁, sameParams_declareLocal .., h₁,
    (sameParams_declareLocal ..).trans (sameParams_setCallParam h₂)⟩

theorem applyOutputArray_ok {spec : TransformerSpec} {size : Nat} {s t : TransformState}
    {action : TransformerAction} (hk : spec.kind = .outputArray size)
    (h : spec.applyOutputArray size s = .ok (action, t)) : Handles spec s ⟨spec, action⟩ t := by
  simp only [applyOutputArray, Except.bind_eq_ok, Except.pure_eq_ok, Prod.mk.injEq] at h
  obtain ⟨p, hp, r, hr, u₁, h₁, u₂, h₂, u₃, h₃, rfl, rfl⟩ := h
  refine ⟨p, r, arrayArg_ok hp, hr, by simp [Transformer.passed?, replaces, hk], ?_⟩
  exact (sameParams_declareLocal ..).trans <| (sameParams_declareLocal ..).trans <|
    (sameParams_setCallParam h₁).trans <| (sameParams_addResult h₂).trans <|
    (sameParams_declareLocal ..).trans (sameParams_addVirtualResult h₃)

/-- **A transformer removes a parameter, may insert one, and changes nothing else** about the two
parameter lists. -/
theorem apply_ok {spec : TransformerSpec} {s t : TransformState} {a : Transformer}
    (h : spec.apply s = .ok (a, t)) : a.spec = spec ∧ Handles spec s a t := by
  cases hk : spec.kind <;>
    simp only [apply, hk, Except.bind_eq_ok, Except.pure_eq_ok, Prod.mk.injEq] at h <;>
    obtain ⟨⟨action, u⟩, h, rfl, rfl⟩ := h
  · exact ⟨rfl, applyOutput_ok hk h⟩
  · exact ⟨rfl, applyInput_ok hk h⟩
  · exact ⟨rfl, applyInout_ok hk h⟩
  · exact ⟨rfl, applyInputArray_ok hk h⟩
  · exact ⟨rfl, applyOutputArray_ok hk h⟩

end TransformerSpec

end Bindery
