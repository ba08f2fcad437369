import Bindery.Proofs.Transform.Results

/-!
# The variables of the exposed function

The exposed function passes variables on to the native one and returns variables to Python.  Its
transformers take parameters out of its signature, put some back and declare temporaries.  A
temporary only gets a name that no parameter has at that moment.  That is enough: a parameter that
is put back later was in the signature then, under the same name.

## Main definitions

* `TransformState.ExposedClosed` — the exposed function uses its own variables only, and their names
  do not clash.
* `Sourced t` — the same, with the native parameter that each variable is used for.

## Main results

* `Sourced.step` — a transformer uses variables of its own and leaves those of others alone.
* `ofSpecs_exposedClosed` — **the exposed function is closed and unambiguous**, whatever the names
  of the native parameters and the order of the transformers.
-/

namespace Bindery

open TransformState

/-- The name is that of a temporary or of a parameter of the exposed function. -/
def TransformState.ExposedVariable (s : TransformState) (name : String) : Prop :=
  name ∈ s.localNames ∨ name ∈ s.paramNames

/-- The exposed function uses no variable that it does not have, and the names of its temporaries
are those of nothing else. -/
structure TransformState.ExposedClosed (s : TransformState) : Prop where
  distinct : s.localNames.Nodup
  /-- The object of a member function is passed as `self`. -/
  not_self : ∀ n ∈ s.localNames, n ≠ "self"
  apart : ∀ n ∈ s.localNames, n ∉ s.paramNames
  passed : ∀ e ∈ s.callParams, ∃ n, s.ExposedVariable n ∧ Passes e n
  returned : ∀ r ∈ s.results, s.ExposedVariable r.expr
  assigned : ∀ n ∈ s.resultVar, n ∈ s.localNames

/-- Each variable that the exposed function of `t` uses is one for a native parameter: for the one
that it is passed for, or for one whose transformer returns it. -/
structure Sourced (t : Transformation) : Prop where
  exposed : t.state.ExposesNatives
  distinct : t.state.localNames.Nodup
  not_self : ∀ n ∈ t.state.localNames, n ≠ "self"
  apart : ∀ n ∈ t.state.localNames, n ∉ t.state.paramNames
  passed : ∀ i e, t.state.callParams[i]? = some e → ∃ n, t.state.VariableFor i n ∧ Passes e n
  returned : ∀ r ∈ t.state.results, r.expr ∈ t.state.localNames ∨
    ∃ a ∈ t.transformers, ∃ i, a.spec.arg = i + 1 ∧ t.state.VariableFor i r.expr
  assigned : ∀ n ∈ t.state.resultVar, n ∈ t.state.localNames

theorem TransformState.VariableFor.exposedVariable {s : TransformState} {i : Nat} {n : String}
    (h : s.VariableFor i n) : s.ExposedVariable n := by
  rcases h with h | ⟨e, he, -, rfl⟩
  · exact .inl h
  · exact .inr (List.mem_map.mpr ⟨e, he, rfl⟩)

namespace Sourced

variable {t : Transformation} {s : TransformState} {a : Transformer} {k : Nat} {p : Param}
  {u : TransformState} {new : List LocalVar} {value? : Option ResultExpr}

theorem exposedClosed (h : Sourced t) : t.state.ExposedClosed where
  distinct := h.distinct
  not_self := h.not_self
  apart := h.apart
  passed e he := by
    obtain ⟨i, hi⟩ := List.mem_iff_getElem?.mp he
    obtain ⟨n, hn, hpasses⟩ := h.passed i e hi
    exact ⟨n, hn.exposedVariable, hpasses⟩
  returned r hr := by
    rcases h.returned r hr with hlocal | ⟨-, -, i, -, hi⟩
    · exact .inl hlocal
    · exact hi.exposedVariable
  assigned := h.assigned

/-- What is passed for a native parameter behind a transformer is a variable for it. -/
theorem passed_step (h : Sourced t) (ha : Applied t a k p u new value? s) (i : Nat) (e : String)
    (hi : s.callParams[i]? = some e) : ∃ n, s.VariableFor i n ∧ Passes e n := by
  by_cases hik : i = k
  · subst hik
    obtain ⟨n, e', hn, he', hpasses⟩ := ha.passed
    cases he'.symm.trans hi
    exact ⟨n, ha.variableFor hn, hpasses⟩
  · rw [ha.extended.callParams i hik, ha.exchanged.callParams] at hi
    obtain ⟨n, hn, hpasses⟩ := h.passed i e hi
    exact ⟨n, ha.variableFor_of_ne hik hn, hpasses⟩

/-- What is returned behind a transformer is a temporary or a variable for the parameter of one. -/
theorem returned_step (h : Sourced t) (ha : Applied t a k p u new value? s) (r : ResultExpr)
    (hr : r ∈ s.results) : r.expr ∈ s.localNames ∨
      ∃ b ∈ t.transformers ++ [a], ∃ i, b.spec.arg = i + 1 ∧ s.VariableFor i r.expr := by
  rw [ha.extended.results, ha.exchanged.results, List.mem_append] at hr
  rcases hr with hr | hr
  · rcases h.returned r hr with hlocal | ⟨b, hb, i, hbi, hi⟩
    · rw [ha.localNames_eq]
      exact .inl (List.mem_append_left _ hlocal)
    · -- the parameter of another transformer is not taken out by this one
      have hik : i ≠ k := fun hik => ha.untouched b hb (hik ▸ hbi)
      exact .inr ⟨b, List.mem_append_left _ hb, i, hbi, ha.variableFor_of_ne hik hi⟩
  · have hown := (ha.value r (Option.mem_toList.mp hr)).2
    exact .inr ⟨a, List.mem_append_right _ List.mem_cons_self, k, ha.arg, ha.variableFor hown⟩

/-- **A transformer uses variables of its own and leaves those of others alone.** -/
theorem step (h : Sourced t) (ha : Applied t a k p u new value? s) :
    Sourced ⟨s, t.transformers ++ [a]⟩ where
  exposed := ha.exposesNatives h.exposed
  distinct := ha.nodup_localNames h.distinct
  not_self n hn := by
    rw [ha.localNames_eq, List.mem_append] at hn
    rcases hn with hn | hn
    · exact h.not_self n hn
    · obtain ⟨l, hl, rfl⟩ := List.mem_map.mp hn
      exact (ha.extended.fresh l hl).1
  apart := ha.apart h.exposed h.apart
  passed := h.passed_step ha
  returned := h.returned_step ha
  assigned n hn := by
    rw [ha.extended.resultVar, ha.exchanged.resultVar] at hn
    rw [ha.localNames_eq]
    exact List.mem_append_left _ (h.assigned n hn)

/-- The untransformed function passes its parameters and returns a temporary, if anything. -/
theorem ofCallable (function : String) (c : Callable) :
    Sourced { state := TransformState.ofCallable function c } := by
  have hstart := Lockstep.ofCallable function c
  have hpassed : ∀ i e, (signatureOf function c).callParams[i]? = some e →
      ∃ x ∈ (signatureOf function c).exposed, x.1 = i ∧ x.2.name = e := by
    intro i e he
    rw [signatureOf, List.getElem?_map, Option.map_eq_some_iff] at he
    obtain ⟨p, hp, rfl⟩ := he
    obtain ⟨hlt, rfl⟩ := List.getElem?_eq_some_iff.mp hp
    exact ⟨_, List.mem_mapIdx.mpr ⟨i, hlt, rfl⟩, rfl, rfl⟩
  have hreturned : ∀ r ∈ (TransformState.ofCallable function c).results,
      r.expr ∈ (TransformState.ofCallable function c).localNames := by
    intro r hr
    rcases hstart.sources r hr with hlocal | ⟨-, -, -, b, hb, -⟩
    · exact hlocal
    · cases hb
  cases hvoid : c.result.isVoid with
  | true =>
    rw [ofCallable_of_isVoid function hvoid] at hstart hreturned ⊢
    refine ⟨hstart.exposed, hstart.locals, fun n hn => ?_, hstart.apart,
      fun i e he => ⟨e, .inr (hpassed i e he), .inl rfl⟩, fun r hr => .inl (hreturned r hr), ?_⟩
    · exact absurd hn List.not_mem_nil
    · intro n hn
      cases hn
  | false =>
    have hnew := (signatureOf function c).freshName_exposed "result"
    rw [ofCallable_of_result function hvoid] at hstart hreturned ⊢
    refine ⟨hstart.exposed, hstart.locals, ?_, hstart.apart,
      fun i e he => ⟨e, .inr (hpassed i e he), .inl rfl⟩, fun r hr => .inl (hreturned r hr), ?_⟩
    · intro n hn
      rw [List.mem_singleton.mp hn]
      exact hnew.1
    · intro n hn
      cases hn
      exact List.mem_singleton.mpr rfl

/-- Ending the edits changes nothing about the exposed function. -/
theorem freeze (h : Sourced t) : Sourced { t with state := t.state.freeze } := by
  unfold TransformState.freeze
  split <;>
    exact ⟨h.exposed, h.distinct, h.not_self, h.apart, h.passed, h.returned, h.assigned⟩

end Sourced

/-- **The exposed function is closed and unambiguous.**  Its temporaries have names of their own,
it passes and returns its parameters and its temporaries only, and it keeps the native result in a
temporary. -/
theorem ofSpecs_exposedClosed {function : String} {c : Callable} {specs : List TransformerSpec}
    {t : Transformation} (h : Transformation.ofSpecs function c specs = .ok t) :
    t.state.ExposedClosed := by
  simp only [Transformation.ofSpecs, Except.bind_eq_ok, Except.pure_eq_ok] at h
  obtain ⟨t₀, hrun, rfl⟩ := h
  obtain ⟨hsourced, -⟩ :=
    run_of_applied Sourced (.ofCallable function c) (fun h ha => h.step ha) hrun
  exact hsourced.freeze.exposedClosed

/-- A function with a result whose parameters are pointers, with the names of temporaries. -/
def withClashingNames : Callable where
  kind := .freeFunction
  args := ["result", "c_x", "x", "x_2"].map fun name =>
    ⟨name, .pointer (.fundamental .int), none⟩
  returnType := some (.fundamental .int)

/-- Temporaries get out of the way of the parameters that are exposed when they are declared, and
may have the name of one that is not any more. -/
theorem ofSpecs_exposedClosed_clashing :
    ∃ t, Transformation.ofSpecs "::f" withClashingNames
        [⟨.outputArray 3, 3⟩, ⟨.input, 2⟩, ⟨.output, 4⟩, ⟨.output, 1⟩] = .ok t ∧
      t.state.localNames = ["result_2", "c_x_2", "x", "x_2", "result"] ∧
      t.state.ExposedClosed := by
  obtain ⟨t, h, hlocals⟩ := Except.exists_eq_ok_of_any
    (x := Transformation.ofSpecs "::f" withClashingNames
      [⟨.outputArray 3, 3⟩, ⟨.input, 2⟩, ⟨.output, 4⟩, ⟨.output, 1⟩])
    (p := fun t => t.state.localNames = ["result_2", "c_x_2", "x", "x_2", "result"])
    (by decide +kernel)
  exact ⟨t, h, of_decide_eq_true hlocals, ofSpecs_exposedClosed h⟩

end Bindery
