import Bindery.Proofs.Transform.OverrideOrder
import Bindery.Proofs.Transform.Temporaries
import Mathlib.Data.List.Forall2

/-!
# The values that the two sides return

The exposed function returns a list of variables to Python, and the override reads a list of values
that Python returns.  The two lists are kept apart: the one holds expressions, the other says which
native value is meant.  Position by position they stand for the same native value.

## Main definitions

* `Transformation.Stands` — a returned expression and a value of the override stand for the same.
* `TransformState.VariableFor` — a variable that can be passed for a native parameter.
* `Lockstep c t` — the two lists agree, and the variables of the exposed function are distinct.
* `Applied` — one more transformer, of a parameter that no earlier one has dealt with.

## Main results

* `Lockstep.step` — a transformer of a parameter that none has dealt with keeps the lists in step.
* `run_of_applied` — what holds of a function and is kept by each transformer holds in the end.
* `ofSpecs_results` — **both sides return the same values in the same order**, the native result
  first, and the override reads each returned argument from its place.
-/

namespace Bindery

open TransformState TransformerSpec

/-- The expression `r` of the exposed function and the value `v` of the override stand for the same
native value. -/
def Transformation.Stands (t : Transformation) (r : ResultExpr) : VirtualResult → Prop
  | .nativeReturn => t.state.resultVar = some r.expr
  | .arg name => ∃ a ∈ t.transformers, ∃ k p, a.spec.arg = k + 1 ∧
      t.state.nativeArgs[k]? = some p ∧ p.name = name ∧ a.Holds t.state r.expr

/-- An exposed parameter has the name of its native one. -/
def TransformState.ExposesNatives (s : TransformState) : Prop :=
  ∀ e ∈ s.exposed, ∃ p, s.nativeArgs[e.1]? = some p ∧ e.2.name = p.name

/-- The name is that of a temporary of the exposed function or of its parameter in the place of the
native one, number `i`. -/
def TransformState.VariableFor (s : TransformState) (i : Nat) (name : String) : Prop :=
  name ∈ s.localNames ∨ ∃ e ∈ s.exposed, e.1 = i ∧ e.2.name = name

/-- The argument of the transformer has the given place among the returned values of both sides. -/
def Transformation.ReturnsAt (t : Transformation) (a : Transformer) (place : Nat) : Prop :=
  ∃ p r, t.state.arg a.spec.arg = .ok p ∧ t.state.results[place]? = some r ∧
    t.state.virtualResults[place]? = some (.arg p.name) ∧ a.Holds t.state r.expr

/-- The transformed function `t` of `c` returns the same values on both sides. -/
structure Lockstep (c : Callable) (t : Transformation) : Prop where
  nativeArgs : t.state.nativeArgs = paramsOf c
  nativeReturn : t.state.nativeReturn = c.result
  exposed : t.state.ExposesNatives
  locals : t.state.localNames.Nodup
  apart : ∀ n ∈ t.state.localNames, n ∉ t.state.paramNames
  /-- A returned expression is a temporary or a parameter that a transformer has dealt with. -/
  sources : ∀ r ∈ t.state.results, r.expr ∈ t.state.localNames ∨
    ∃ e ∈ t.state.exposed, e.2.name = r.expr ∧ ∃ a ∈ t.transformers, a.spec.arg = e.1 + 1
  distinct : (t.state.results.map (·.expr)).Nodup
  stands : List.Forall₂ t.Stands t.state.results t.state.virtualResults
  virtual : t.state.virtualResults.Nodup
  /-- An argument that is returned has a place in both lists. -/
  returned : ∀ a ∈ t.transformers, a.spec.returns = true → ∃ place, t.ReturnsAt a place
  native : c.result.isVoid = false → t.state.virtualResults.head? = some .nativeReturn

/-! ### One more transformer -/

/-- Native parameters of the same name are the same. -/
theorem eq_of_name_eq {args : List Param} (hnames : (args.map (·.name)).Nodup) {i j : Nat}
    {p q : Param} (hp : args[i]? = some p) (hq : args[j]? = some q) (h : p.name = q.name) :
    i = j := by
  have hi : (args.map (·.name))[i]? = some p.name := by rw [List.getElem?_map, hp]; rfl
  have hj : (args.map (·.name))[j]? = some p.name := by rw [List.getElem?_map, hq, h]; rfl
  exact (List.getElem?_inj (List.getElem?_eq_some_iff.mp hi).1 hnames).mp (hi.trans hj.symm)

/-- What a transformer leaves for its own parameter does not depend on what is passed for others. -/
theorem Transformer.Holds.congr {b : Transformer} {e : String} {s s' : TransformState}
    (h : b.Holds s e) (hcall : s'.callParams[b.spec.arg - 1]? = s.callParams[b.spec.arg - 1]?) :
    b.Holds s' e := by
  unfold Transformer.Holds at h ⊢
  rw [hcall]
  exact h

/-- The transformer `a` of the native parameter `p`, number `k`, which no earlier one of `t` has
dealt with, leads to the state `s` by way of `u`. -/
structure Applied (t : Transformation) (a : Transformer) (k : Nat) (p : Param) (u : TransformState)
    (new : List LocalVar) (value? : Option ResultExpr) (s : TransformState) : Prop where
  arg : a.spec.arg = k + 1
  param : t.state.nativeArgs[k]? = some p
  untouched : ∀ b ∈ t.transformers, b.spec.arg ≠ k + 1
  present : ∃ e ∈ t.state.exposed, e.1 = k
  exchanged : Exchanged k p t.state u
  extended : Extended k new value?.toList (value?.map fun _ => .arg p.name).toList u s
  passed : ∃ n e, u.OwnVariable k new n ∧ s.callParams[k]? = some e ∧ Passes e n
  returns : value?.isSome = a.spec.returns
  value : ∀ r ∈ value?, a.Holds s r.expr ∧ u.OwnVariable k new r.expr

/-- A transformer is applied to a parameter that no earlier one has dealt with. -/
theorem applied_of_extend {done : List TransformerSpec} {order : List Nat} {t t' : Transformation}
    {spec : TransformerSpec} (h : Ordered done order t) (he : t.extend spec = .ok t') :
    ∃ a k p u new value?, a.spec = spec ∧ t'.transformers = t.transformers ++ [a] ∧
      Applied t a k p u new value? t'.state := by
  simp only [Transformation.extend, Except.bind_eq_ok, Except.pure_eq_ok] at he
  obtain ⟨⟨a, s⟩, ha, rfl⟩ := he
  obtain ⟨-, q, r, -, hremove, -⟩ := apply_ok ha
  obtain ⟨rfl, k, p, u, new, value?, hk, hp, hexchanged, hextended, hpassed, hreturns, hvalue⟩ :=
    apply_exchanges h.tracks.callParams ha
  rw [hk] at hremove
  have hu : IsUntouched done k := (h.removeArg hk hremove).1
  have hlt := (List.getElem?_eq_some_iff.mp hp).1
  have hpresent := (h.tracks.mem_exposed k).mpr (h.tracks.untouched k hlt hu)
  refine ⟨a, k, p, u, new, value?, rfl, rfl, hk, hp, ?_, ?_, hexchanged, hextended, hpassed,
    hreturns, hvalue⟩
  · intro b hb
    exact hu b.spec (h.specs ▸ List.mem_map_of_mem hb)
  · obtain ⟨e, he, hek⟩ := List.mem_map.mp hpresent
    exact ⟨e, he, hek⟩

section

variable {c : Callable} {t : Transformation} {s : TransformState} {a : Transformer} {k : Nat}
  {p : Param} {u : TransformState} {new : List LocalVar} {value? : Option ResultExpr}

namespace Applied

/-- The temporaries behind a transformer are the earlier ones and its own. -/
theorem localNames_eq (ha : Applied t a k p u new value? s) :
    s.localNames = t.state.localNames ++ new.map (·.name) := by
  rw [localNames, ha.extended.exposedLocals, ha.exchanged.exposedLocals, List.map_append]
  rfl

/-- The temporaries of a transformer have names of their own. -/
theorem nodup_localNames (ha : Applied t a k p u new value? s)
    (hlocals : t.state.localNames.Nodup) :
    s.localNames.Nodup := by
  refine ha.extended.distinct ?_
  rw [localNames, ha.exchanged.exposedLocals]
  exact hlocals

/-- The parameter of a transformer is exposed under its own name before. -/
theorem name_mem_paramNames (ha : Applied t a k p u new value? s)
    (hexposed : t.state.ExposesNatives) : p.name ∈ t.state.paramNames := by
  obtain ⟨e, he, hek⟩ := ha.present
  obtain ⟨q, hq, hname⟩ := hexposed e he
  rw [hek, ha.param, Option.some.injEq] at hq
  exact List.mem_map.mpr ⟨e, he, by rw [hname, ← hq]⟩

/-- An exposed parameter has the name of its native one behind the transformer, too. -/
theorem exposesNatives (ha : Applied t a k p u new value? s)
    (hexposed : t.state.ExposesNatives) : s.ExposesNatives := by
  intro e he
  rw [ha.extended.nativeArgs, ha.exchanged.nativeArgs]
  rw [ha.extended.exposed] at he
  rcases ha.exchanged.mem_exposed e he with he | ⟨hek, hname⟩
  · exact hexposed e he
  · exact ⟨p, hek ▸ ha.param, hname⟩

/-- No temporary has the name of a parameter behind the transformer. -/
theorem apart (ha : Applied t a k p u new value? s) (hexposed : t.state.ExposesNatives)
    (hapart : ∀ n ∈ t.state.localNames, n ∉ t.state.paramNames) :
    ∀ n ∈ s.localNames, n ∉ s.paramNames := by
  intro n hn hmem
  rw [ha.localNames_eq, List.mem_append] at hn
  rw [paramNames, ha.extended.exposed] at hmem
  rcases hn with hn | hn
  · obtain ⟨e, he, rfl⟩ := List.mem_map.mp hmem
    refine hapart _ hn ?_
    rcases ha.exchanged.mem_exposed e he with he | ⟨-, hname⟩
    · exact List.mem_map.mpr ⟨e, he, rfl⟩
    · -- a parameter that is inserted again was exposed when the temporary was declared
      rw [hname]
      exact ha.name_mem_paramNames hexposed
  · obtain ⟨l, hl, rfl⟩ := List.mem_map.mp hn
    exact (ha.extended.fresh l hl).2.2 hmem

/-- A variable for another parameter than that of the transformer stays one. -/
theorem variableFor_of_ne (ha : Applied t a k p u new value? s) {i : Nat} (hi : i ≠ k) {n : String}
    (h : t.state.VariableFor i n) : s.VariableFor i n := by
  rw [VariableFor, ha.localNames_eq, List.mem_append, ha.extended.exposed]
  rcases h with h | ⟨e, he, rfl, hname⟩
  · exact .inl (.inl h)
  · exact .inr ⟨e, ha.exchanged.kept e he hi, rfl, hname⟩

/-- A transformer passes and returns variables for its parameter. -/
theorem variableFor (ha : Applied t a k p u new value? s) {n : String}
    (h : u.OwnVariable k new n) : s.VariableFor k n := by
  rw [VariableFor, ha.localNames_eq, List.mem_append, ha.extended.exposed]
  rcases h with h | h
  · exact .inl (.inr h)
  · exact .inr h

end Applied

theorem TransformState.signatureOf_exposesNatives (function : String) (c : Callable) :
    (signatureOf function c).ExposesNatives := by
  intro e he
  obtain ⟨i, hi, rfl⟩ := List.mem_mapIdx.mp he
  exact ⟨_, List.getElem?_eq_getElem hi, rfl⟩

namespace Lockstep

/-- The variable that a transformer returns is returned by no other. -/
theorem value_notMem (h : Lockstep c t) (hnames : ((paramsOf c).map (·.name)).Nodup)
    (ha : Applied t a k p u new value? s) {r : ResultExpr} (hr : r ∈ value?) :
    r.expr ∉ t.state.results.map (·.expr) := by
  intro hmem
  obtain ⟨r', hr', heq⟩ := List.mem_map.mp hmem
  rcases (ha.value r hr).2 with hnew | ⟨e, he, hek, hname⟩
  · -- a new temporary has the name of nothing that is there
    obtain ⟨l, hl, hname⟩ := List.mem_map.mp hnew
    obtain ⟨-, hlocal, hparam⟩ := ha.extended.fresh l hl
    rw [hname, ← heq] at hlocal hparam
    rcases h.sources r' hr' with hold | ⟨e, he, hold, b, hb, hbe⟩
    · exact hlocal (by rw [localNames, ha.exchanged.exposedLocals]; exact hold)
    · have hek : e.1 ≠ k := fun hek => ha.untouched b hb (hek ▸ hbe)
      exact hparam (List.mem_map.mpr ⟨e, ha.exchanged.kept e he hek, hold⟩)
  · -- the parameter itself was not returned, as no transformer has dealt with it
    obtain ⟨q, hq, hqname⟩ := ha.exposesNatives h.exposed e (ha.extended.exposed ▸ he)
    rw [hek, ha.extended.nativeArgs, ha.exchanged.nativeArgs, ha.param, Option.some.injEq] at hq
    have hpname : r'.expr = p.name := by rw [heq, ← hname, hqname, hq]
    rcases h.sources r' hr' with hold | ⟨e', he', hold, b, hb, hbe⟩
    · exact h.apart _ hold (hpname ▸ ha.name_mem_paramNames h.exposed)
    · obtain ⟨q', hq', hname'⟩ := h.exposed e' he'
      have hek' : e'.1 = k := by
        rw [h.nativeArgs] at hq'
        exact eq_of_name_eq hnames hq' (h.nativeArgs ▸ ha.param) (by rw [← hname', hold, hpname])
      exact ha.untouched b hb (hek' ▸ hbe)

theorem sources_step (h : Lockstep c t) (ha : Applied t a k p u new value? s) :
    ∀ r ∈ s.results, r.expr ∈ s.localNames ∨
      ∃ e ∈ s.exposed, e.2.name = r.expr ∧ ∃ b ∈ t.transformers ++ [a], b.spec.arg = e.1 + 1 := by
  intro r hr
  rw [ha.extended.results, ha.exchanged.results, List.mem_append] at hr
  rcases hr with hr | hr
  · rcases h.sources r hr with hold | ⟨e, he, hname, b, hb, hbe⟩
    · rw [ha.localNames_eq]
      exact .inl (List.mem_append_left _ hold)
    · have hek : e.1 ≠ k := fun hek => ha.untouched b hb (hek ▸ hbe)
      have hkept := ha.exchanged.kept e he hek
      exact .inr ⟨e, ha.extended.exposed ▸ hkept, hname, b, List.mem_append_left _ hb, hbe⟩
  · rcases ha.variableFor (ha.value r (Option.mem_toList.mp hr)).2 with
      hlocal | ⟨e, he, hek, hname⟩
    · exact .inl hlocal
    · exact .inr ⟨e, he, hname, a, List.mem_append_right _ List.mem_cons_self, hek ▸ ha.arg⟩

/-- The variable of an earlier transformer still holds what that returns. -/
theorem holds_step (ha : Applied t a k p u new value? s) {b : Transformer} (hb : b ∈ t.transformers)
    {j : Nat} (hbj : b.spec.arg = j + 1) {e : String} (h : b.Holds t.state e) : b.Holds s e := by
  have hjk : b.spec.arg - 1 ≠ k := by
    have := ha.untouched b hb
    omega
  refine h.congr ?_
  rw [ha.extended.callParams _ hjk, ha.exchanged.callParams]

/-- What stood for the same native value still does. -/
theorem stands_step (ha : Applied t a k p u new value? s) {r : ResultExpr} {v : VirtualResult}
    (hs : t.Stands r v) : Transformation.Stands ⟨s, t.transformers ++ [a]⟩ r v := by
  cases v with
  | nativeReturn => exact (ha.extended.resultVar.trans ha.exchanged.resultVar).trans hs
  | arg name =>
    obtain ⟨b, hb, j, q, hbj, hq, hname, hholds⟩ := hs
    refine ⟨b, List.mem_append_left _ hb, j, q, hbj, ?_, hname, holds_step ha hb hbj hholds⟩
    exact (congrArg (·[j]?) (ha.extended.nativeArgs.trans ha.exchanged.nativeArgs)).trans hq

/-- The argument of a transformer was not among the values of the override. -/
theorem arg_notMem (h : Lockstep c t) (hnames : ((paramsOf c).map (·.name)).Nodup)
    (ha : Applied t a k p u new value? s) : .arg p.name ∉ t.state.virtualResults := by
  intro hmem
  obtain ⟨i, hi, hget⟩ := List.mem_iff_getElem.mp hmem
  have hstands := h.stands.get (h.stands.length_eq ▸ hi) hi
  rw [List.get_eq_getElem, List.get_eq_getElem, hget] at hstands
  obtain ⟨b, hb, j, q, hbj, hq, hname, -⟩ := hstands
  have hjk : j = k := by
    rw [h.nativeArgs] at hq
    exact eq_of_name_eq hnames hq (h.nativeArgs ▸ ha.param) hname
  exact ha.untouched b hb (hjk ▸ hbj)

/-- **A transformer keeps the returned values of the two sides in step.** -/
theorem step (h : Lockstep c t) (hnames : ((paramsOf c).map (·.name)).Nodup)
    (ha : Applied t a k p u new value? s) : Lockstep c ⟨s, t.transformers ++ [a]⟩ := by
  have hargs := ha.extended.nativeArgs.trans ha.exchanged.nativeArgs
  have hresults : s.results = t.state.results ++ value?.toList := by
    rw [ha.extended.results, ha.exchanged.results]
  have hvirtual : s.virtualResults =
      t.state.virtualResults ++ (value?.map fun _ => .arg p.name).toList := by
    rw [ha.extended.virtualResults, ha.exchanged.virtualResults]
  refine ⟨hargs.trans h.nativeArgs, ?_, ha.exposesNatives h.exposed, ha.nodup_localNames h.locals,
    ha.apart h.exposed h.apart, h.sources_step ha, ?_, ?_, ?_, ?_, ?_⟩
  · exact (ha.extended.nativeReturn.trans ha.exchanged.nativeReturn).trans h.nativeReturn
  · rw [hresults, List.map_append]
    refine List.nodup_append'.mpr ⟨h.distinct, by cases value? <;> simp, ?_⟩
    intro n hn hnew
    obtain ⟨r, hr, rfl⟩ := List.mem_map.mp hnew
    exact h.value_notMem hnames ha (Option.mem_toList.mp hr) hn
  · rw [hresults, hvirtual]
    refine List.rel_append (h.stands.imp fun _ _ => stands_step ha) ?_
    cases value? with
    | none => exact .nil
    | some r =>
      refine .cons ⟨a, List.mem_append_right _ List.mem_cons_self, k, p, ha.arg, ?_, rfl,
        (ha.value r rfl).1⟩ .nil
      exact (congrArg (·[k]?) hargs).trans ha.param
  · rw [hvirtual]
    refine List.nodup_append'.mpr ⟨h.virtual, by cases value? <;> simp, ?_⟩
    intro v hv hnew
    obtain ⟨r, -, rfl⟩ := Option.map_eq_some_iff.mp (Option.mem_toList.mp hnew)
    exact h.arg_notMem hnames ha hv
  · intro b hb hreturns
    rcases List.mem_append.mp hb with hb | hb
    · obtain ⟨place, q, r, hq, hr, hv, hholds⟩ := h.returned b hb hreturns
      obtain ⟨j, hbj, hq⟩ := arg_eq_ok.mp hq
      have hlt := (List.getElem?_eq_some_iff.mp hr).1
      refine ⟨place, q, r, arg_eq_ok.mpr ⟨j, hbj, (congrArg (·[j]?) hargs).trans hq⟩, ?_, ?_,
        holds_step ha hb hbj hholds⟩
      · rw [hresults, List.getElem?_append_left hlt]
        exact hr
      · rw [hvirtual, List.getElem?_append_left (h.stands.length_eq ▸ hlt)]
        exact hv
    · cases List.mem_singleton.mp hb
      obtain ⟨r, hr⟩ := Option.isSome_iff_exists.mp (ha.returns.trans hreturns)
      refine ⟨t.state.results.length, p, r,
        arg_eq_ok.mpr ⟨k, ha.arg, (congrArg (·[k]?) hargs).trans ha.param⟩, ?_, ?_,
        (ha.value r hr).1⟩
      · rw [hresults, hr, List.getElem?_append_right (Nat.le_refl _), Nat.sub_self]
        rfl
      · rw [hvirtual, hr, h.stands.length_eq, List.getElem?_append_right (Nat.le_refl _),
          Nat.sub_self]
        rfl
  · intro hvoid
    rw [hvirtual, List.head?_append, h.native hvoid]
    rfl

/-! ### Whole lists of transformers -/

/-- The untransformed function returns the native result on both sides, if there is one. -/
theorem ofCallable (function : String) (c : Callable) :
    Lockstep c { state := TransformState.ofCallable function c } := by
  have hexposed := signatureOf_exposesNatives function c
  cases hvoid : c.result.isVoid with
  | true =>
    rw [ofCallable_of_isVoid function hvoid]
    refine ⟨rfl, rfl, hexposed, List.nodup_nil, nofun, nofun, List.nodup_nil, .nil, List.nodup_nil,
      nofun, ?_⟩
    intro h
    rw [hvoid] at h
    cases h
  | false =>
    have hnew := ((signatureOf function c).freshName_exposed "result").2
    rw [ofCallable_of_result function hvoid]
    refine ⟨rfl, rfl, hexposed, List.nodup_singleton _, ?_, ?_, List.nodup_singleton _,
      .cons rfl .nil, List.nodup_singleton _, nofun, fun _ => rfl⟩
    · intro n hn
      rw [List.mem_singleton.mp hn]
      exact hnew.2
    · intro r hr
      rw [List.mem_singleton.mp hr]
      exact .inl (List.mem_singleton.mpr rfl)

/-- Ending the edits changes nothing about the returned values. -/
theorem freeze {c : Callable} {t : Transformation} (h : Lockstep c t) :
    Lockstep c { t with state := t.state.freeze } := by
  unfold TransformState.freeze
  split <;>
    exact ⟨h.nativeArgs, h.nativeReturn, h.exposed, h.locals, h.apart, h.sources, h.distinct,
      h.stands, h.virtual, h.returned, h.native⟩

end Lockstep

end

/-- What holds of the untransformed function and is kept by every transformer, holds behind a list
of transformers. -/
theorem run_of_applied (P : Transformation → Prop) {function : String} {c : Callable}
    {specs : List TransformerSpec} {t : Transformation}
    (hstart : P { state := TransformState.ofCallable function c })
    (hstep : ∀ {t a k p u new value? s}, P t → Applied t a k p u new value? s →
      P ⟨s, t.transformers ++ [a]⟩)
    (hrun : specs.foldlM Transformation.extend { state := TransformState.ofCallable function c } =
      .ok t) : P t ∧ t.transformers.map (·.spec) = specs := by
  have hall := Except.foldlM_invariant (fun done t => (∃ order, Ordered done order t) ∧ P t)
    (by
      rintro done spec t t' ⟨⟨order, ho⟩, hp⟩ he
      refine ⟨ho.extend he, ?_⟩
      obtain ⟨a, k, p, u, new, value?, -, htransformers, ha⟩ := applied_of_extend ho he
      have := hstep hp ha
      rwa [← htransformers] at this)
    specs [] _ t ⟨⟨_, ordered_ofCallable function c⟩, hstart⟩ hrun
  rw [List.nil_append] at hall
  obtain ⟨⟨order, ho⟩, hp⟩ := hall
  exact ⟨hp, ho.specs⟩

theorem lockstep_ofSpecs {function : String} {c : Callable} {specs : List TransformerSpec}
    {t : Transformation} (hnames : ((paramsOf c).map (·.name)).Nodup)
    (h : Transformation.ofSpecs function c specs = .ok t) :
    Lockstep c t ∧ t.transformers.map (·.spec) = specs := by
  simp only [Transformation.ofSpecs, Except.bind_eq_ok, Except.pure_eq_ok] at h
  obtain ⟨t₀, hrun, rfl⟩ := h
  obtain ⟨hl, hspecs⟩ :=
    run_of_applied (Lockstep c) (.ofCallable function c) (fun hl ha => hl.step hnames ha) hrun
  exact ⟨hl.freeze, hspecs⟩

theorem pyResultExpr_eq {s : TransformState} {index : Nat} {p : Param}
    (h : s.arg index = .ok p) : s.pyResultExpr index =
      .ok (s.pyResultAt ((s.virtualResults.findIdx? (· == .arg p.name)).getD 0)) := by
  rw [TransformState.pyResultExpr, h]
  rfl

/-- A returned argument is read from its place. -/
theorem Lockstep.pyResultExpr {c : Callable} {t : Transformation} (h : Lockstep c t)
    {a : Transformer} {place : Nat} (ha : t.ReturnsAt a place) :
    t.state.pyResultExpr a.spec.arg =
      .ok (if t.state.results.length = 1 then "pyresult" else s!"pyresult[{place}]") := by
  obtain ⟨p, r, hp, hr, hv, -⟩ := ha
  have hlength := h.stands.length_eq
  obtain ⟨hlt, hget⟩ := List.getElem?_eq_some_iff.mp hv
  have hfind : t.state.virtualResults.findIdx? (· == .arg p.name) = some place := by
    refine List.findIdx?_eq_some_iff_getElem.mpr ⟨hlt, by simp [hget], ?_⟩
    intro j hj heq
    rw [beq_iff_eq, ← hget] at heq
    exact Nat.ne_of_lt hj ((List.Nodup.getElem_inj_iff h.virtual).mp heq)
  rw [pyResultExpr_eq hp, hfind, Option.getD_some, pyResultAt]
  by_cases hone : t.state.results.length = 1
  · rw [if_pos hone, if_neg (by omega)]
  · rw [if_neg hone, if_pos (by omega)]

/-- The native result is the first value on both sides: the exposed function returns the variable
that it assigns the result of the call to, and the override reads its result from the first
place. -/
def Transformation.ReturnsNative (t : Transformation) (c : Callable) : Prop :=
  ∃ name, t.state.resultVar = some name ∧ (t.state.results.map (·.expr)).head? = some name ∧
    t.state.virtualResults.head? = some .nativeReturn ∧
    ∀ g preCall postCall, (t.state.overrideCode g preCall postCall).returnStmt =
      "return boost::python::extract< " ++ g.spell c.result ++ " >( " ++ t.state.pyResultAt 0 ++
        " );"

theorem Lockstep.returnsNative {c : Callable} {t : Transformation} (h : Lockstep c t)
    (hvoid : c.result.isVoid = false) : t.ReturnsNative c := by
  have hhead := h.native hvoid
  have hstands := h.stands
  obtain ⟨v, hv⟩ : ∃ v, t.state.virtualResults = .nativeReturn :: v :=
    List.head?_eq_some_iff.mp hhead
  rw [hv] at hstands
  obtain ⟨r, rs, hr, hrs, heq⟩ := List.forall₂_cons_right_iff.mp hstands
  refine ⟨r.expr, hr, by rw [heq]; rfl, hhead, fun g preCall postCall => ?_⟩
  simp only [TransformState.overrideCode, h.nativeReturn, hvoid]
  rw [hv]
  rfl

/-- **Both sides return the same values in the same order.**  The exposed function returns as many
values as are expected of an override, in distinct variables; the native result comes first; and an
argument that a transformer returns is read from the place of its variable. -/
theorem ofSpecs_results {function : String} {c : Callable} {specs : List TransformerSpec}
    {t : Transformation} (hnames : ((paramsOf c).map (·.name)).Nodup)
    (h : Transformation.ofSpecs function c specs = .ok t) :
    t.state.results.length = t.state.virtualResults.length ∧
      (t.state.results.map (·.expr)).Nodup ∧
      (c.result.isVoid = false → t.ReturnsNative c) ∧
      ∀ spec ∈ specs, spec.returns = true →
        ∃ a ∈ t.transformers, a.spec = spec ∧ ∃ place, t.ReturnsAt a place ∧
          t.state.pyResultExpr spec.arg =
            .ok (if t.state.results.length = 1 then "pyresult" else s!"pyresult[{place}]") := by
  obtain ⟨hl, hspecs⟩ := lockstep_ofSpecs hnames h
  refine ⟨hl.stands.length_eq, hl.distinct, hl.returnsNative, ?_⟩
  intro spec hspec hreturns
  obtain ⟨a, ha, rfl⟩ := List.mem_map.mp (hspecs.symm ▸ hspec)
  obtain ⟨place, hplace⟩ := hl.returned a ha hreturns
  exact ⟨a, ha, rfl, place, hplace, hl.pyResultExpr hplace⟩

/-- A function with a result and two parameters that are references. -/
def withTwoReferences : Callable :=
  { ofReferences ["a", "b"] with returnType := some (.fundamental .int) }

/-- Parameters that are returned from the last to the first are read in that order. -/
theorem ofSpecs_results_reversed :
    ((paramsOf withTwoReferences).map (·.name)).Nodup ∧
      ∃ t, Transformation.ofSpecs "::f" withTwoReferences [⟨.inout, 2⟩, ⟨.output, 1⟩] = .ok t ∧
        t.state.results.length = t.state.virtualResults.length ∧
        t.ReturnsNative withTwoReferences ∧
        ∃ a ∈ t.transformers, a.spec = ⟨.output, 1⟩ ∧ ∃ place, t.ReturnsAt a place ∧
          t.state.pyResultExpr 1 = .ok s!"pyresult[{place}]" := by
  have hnames : ((paramsOf withTwoReferences).map (·.name)).Nodup := by decide
  obtain ⟨t, h, hthree⟩ := Except.exists_eq_ok_of_any
    (x := Transformation.ofSpecs "::f" withTwoReferences [⟨.inout, 2⟩, ⟨.output, 1⟩])
    (p := fun t => t.state.results.length = 3) (by decide)
  obtain ⟨hlength, -, hnative, hreturned⟩ := ofSpecs_results hnames h
  obtain ⟨a, ha, hspec, place, hplace, hread⟩ := hreturned ⟨.output, 1⟩ (by simp) rfl
  rw [of_decide_eq_true hthree, if_neg (by decide)] at hread
  exact ⟨hnames, t, h, hlength, hnative rfl, a, ha, hspec, place, hplace, hread⟩

end Bindery
