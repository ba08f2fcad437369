import Bindery.Proofs.Transform.OverrideOrder
import Bindery.Proofs.Transform.Temporaries
import Mathlib.Logic.Relation

/-!
# The variables of the override

The override declares temporaries for the lists that it passes and for what Python returns.  The
former are called after their arguments, behind `py_`, and the latter is called `pyresult`; each is
renamed if a native parameter has the name.  What Python returns is received and read by the
unchanged name, though, so the override uses the temporary only if it was not renamed.

## Main definitions

* `Edit s t` — one edit of a transformer leads from `s` to `t`.
* `OverrideNamed c t` — the temporaries of the override have names of their own.
* `Transformation.UsesResult t g v` — what Python returns is received in `v` and read from there.

## Main results

* `apply_edits` — a transformer is a run of edits.
* `OverrideNamed.edit`, `OverrideNamed.edits` — the names stay apart in an edit and in a run.
* `ofSpecs_override` — **the override is unambiguous, and it keeps what Python returns in a
  temporary exactly if no argument is called `pyresult`.**
-/

namespace Bindery

open TransformState TransformerSpec

/-! ### Names -/

/-- A fresh name begins with the name that was asked for. -/
theorem freshName_eq_append (taken : List String) (name : String) :
    ∃ rest, freshName taken name = name ++ rest := by
  have hfrom : ∀ fuel next, ∃ rest, freshFrom taken name fuel next = name ++ rest := by
    intro fuel
    induction fuel with
    | zero => exact fun next => ⟨"_" ++ next.repr, String.append_assoc⟩
    | succ fuel ih =>
      intro next
      rw [freshFrom]
      split
      · exact ih (next + 1)
      · exact ⟨"_" ++ next.repr, String.append_assoc⟩
  unfold freshName
  split
  · exact hfrom _ _
  · exact ⟨"", String.append_empty.symm⟩

/-- A name is kept if it is new. -/
theorem freshName_eq_self {taken : List String} {name : String} :
    freshName taken name = name ↔ name ∉ taken :=
  ⟨fun h => h ▸ freshName_notMem taken name, fun h => if_neg h⟩

private theorem prefixed_ne_pyresult (rest : String) : "py_" ++ rest ≠ "pyresult" := by
  intro h
  have := congrArg String.toList h
  simp [String.toList_append] at this

/-- The name that a parameter without one gets is not `pyresult`. -/
private theorem place_ne_pyresult (i : Nat) : s!"p{i}" ≠ "pyresult" := by
  intro h
  have hchars : ("p" ++ i.repr).toList = "pyresult".toList := congrArg String.toList h
  rw [String.toList_append, Nat.toList_repr] at hchars
  have hdigits : Nat.toDigits 10 i = "yresult".toList :=
    (List.append_right_inj "p".toList).mp hchars
  have hy : 'y' ∈ Nat.toDigits 10 i := by
    rw [hdigits]
    decide
  exact absurd (Nat.isDigit_of_mem_toDigits (by omega) (Nat.le_refl 10) hy) (by decide)

/-- A native parameter is called `pyresult` only if its argument is. -/
theorem paramsOf_ne_pyresult {c : Callable} :
    (∀ p ∈ paramsOf c, p.name ≠ "pyresult") ↔ ∀ a ∈ c.args, a.name ≠ "pyresult" := by
  constructor
  · intro h a ha hname
    obtain ⟨i, hi, rfl⟩ := List.mem_iff_getElem.mp ha
    exact h _ (List.mem_mapIdx.mpr ⟨i, hi, rfl⟩) (by simp [Argument.nameAt, hname])
  · intro h p hp hname
    obtain ⟨i, hi, rfl⟩ := List.mem_mapIdx.mp hp
    simp only [Argument.nameAt] at hname
    split at hname
    · exact place_ne_pyresult i hname
    · exact h _ (List.getElem_mem hi) hname

/-! ### Edits -/

/-- One edit of a transformer leads from one state to the other. -/
inductive Edit : TransformState → TransformState → Prop
  | removeArg {s t index} (h : s.removeArg index = .ok t) : Edit s t
  | insertArg {s t index param expr} (h : s.insertArg index param expr = .ok t) : Edit s t
  | setCallParam {s t index expr} (h : s.setCallParam index expr = .ok t) : Edit s t
  | addResult {s t expr type} (h : s.addResult expr type = .ok t) : Edit s t
  | addVirtualResult {s t index} (h : s.addVirtualResult index = .ok t) : Edit s t
  | declareExposed (s name type size initializer) :
      Edit s (s.declareLocal .exposed name type size initializer).2
  /-- The name of a temporary of the override is made from that of its argument. -/
  | declareOverride (s name type) : Edit s (s.declareLocal .override ("py_" ++ name) type).2

namespace TransformerSpec

variable {spec : TransformerSpec} {s t : TransformState} {action : TransformerAction}

theorem passByValue_edits {index : Nat} {p : Param} (h : passByValue index p s = .ok t) :
    Relation.ReflTransGen Edit s t := by
  simp only [passByValue, Except.bind_eq_ok] at h
  obtain ⟨r, hr, u, hu, h⟩ := h
  exact .head (.removeArg hr) <| .head (.insertArg hu) <| .single (.setCallParam h)

theorem applyOutput_edits (h : spec.applyOutput s = .ok (action, t)) :
    Relation.ReflTransGen Edit s t := by
  simp only [applyOutput, Except.bind_eq_ok, Except.pure_eq_ok, Prod.mk.injEq] at h
  obtain ⟨p, -, r, hr, u₁, h₁, u₂, h₂, u₃, h₃, -, rfl⟩ := h
  exact .head (.removeArg hr) <| .head (.declareExposed ..) <| .head (.setCallParam h₁) <|
    .head (.addResult h₂) <| .single (.addVirtualResult h₃)

theorem applyInout_edits (h : spec.applyInout s = .ok (action, t)) :
    Relation.ReflTransGen Edit s t := by
  simp only [applyInout, Except.bind_eq_ok, Except.pure_eq_ok, Prod.mk.injEq] at h
  obtain ⟨p, -, u₁, h₁, u₂, h₂, u₃, h₃, -, rfl⟩ := h
  exact (passByValue_edits h₁).trans <| .head (.addResult h₂) <| .single (.addVirtualResult h₃)

theorem applyInputArray_edits {size : Nat} (h : spec.applyInputArray size s = .ok (action, t)) :
    Relation.ReflTransGen Edit s t := by
  simp only [applyInputArray, Except.bind_eq_ok, Except.pure_eq_ok, Prod.mk.injEq] at h
  obtain ⟨p, -, r, hr, u, hu, t', h, -, rfl⟩ := h
  exact .head (.removeArg hr) <| .head (.declareOverride ..) <| .head (.insertArg hu) <|
    .head (.declareExposed ..) <| .single (.setCallParam h)

theorem applyOutputArray_edits {size : Nat} (h : spec.applyOutputArray size s = .ok (action, t)) :
    Relation.ReflTransGen Edit s t := by
  simp only [applyOutputArray, Except.bind_eq_ok, Except.pure_eq_ok, Prod.mk.injEq] at h
  obtain ⟨p, -, r, hr, u₁, h₁, u₂, h₂, u₃, h₃, -, rfl⟩ := h
  exact .head (.removeArg hr) <| .head (.declareExposed ..) <| .head (.declareExposed ..) <|
    .head (.setCallParam h₁) <| .head (.addResult h₂) <| .head (.declareOverride ..) <|
    .single (.addVirtualResult h₃)

/-- **A transformer is a run of edits.** -/
theorem apply_edits {a : Transformer} (h : spec.apply s = .ok (a, t)) :
    Relation.ReflTransGen Edit s t := by
  cases hkind : spec.kind <;>
    simp only [apply, hkind, Except.bind_eq_ok, Except.pure_eq_ok, Prod.mk.injEq] at h <;>
    obtain ⟨⟨action, u⟩, h, -, rfl⟩ := h
  · exact applyOutput_edits h
  · simp only [applyInput, Except.bind_eq_ok, Except.pure_eq_ok, Prod.mk.injEq] at h
    obtain ⟨p, -, u', h, -, rfl⟩ := h
    exact passByValue_edits h
  · exact applyInout_edits h
  · exact applyInputArray_edits h
  · exact applyOutputArray_edits h

end TransformerSpec

/-! ### Temporaries -/

namespace TransformState

/-- The native parameter of a number is found in another state with the same ones. -/
theorem arg_congr {s t : TransformState} {index : Nat} {p : Param}
    (hargs : t.nativeArgs = s.nativeArgs) (h : s.arg index = .ok p) : t.arg index = .ok p := by
  rw [arg_eq_ok] at h ⊢
  rw [hargs]
  exact h

theorem virtualResults_freeze (s : TransformState) :
    s.freeze.virtualResults = s.virtualResults := by
  unfold freeze
  split <;> rfl

/-- The names of the temporaries of the override. -/
def overrideNames (s : TransformState) : List String := s.overrideLocals.map (·.name)

/-- The names of the native parameters. -/
def nativeNames (s : TransformState) : List String := s.nativeArgs.map (·.name)

/-- A name that a temporary of the override can have is not that of another one or of a native
parameter. -/
theorem notMem_taken_override {s : TransformState} {n : String} :
    n ∉ s.taken .override ↔ n ≠ "self" ∧ n ∉ s.overrideNames ∧ n ∉ s.nativeNames := by
  simp only [taken, List.cons_append, List.mem_cons, List.mem_append, not_or]
  exact Iff.rfl

/-- The temporaries of the override have names of their own. -/
structure OverrideApart (s : TransformState) : Prop where
  distinct : s.overrideNames.Nodup
  not_self : ∀ n ∈ s.overrideNames, n ≠ "self"
  apart : ∀ n ∈ s.overrideNames, n ∉ s.nativeNames

theorem overrideNames_declareLocal (s : TransformState) (name : String) (type : CppType) :
    (s.declareLocal .override name type).2.overrideNames =
      s.overrideNames ++ [freshName (s.taken .override) name] := List.map_append

/-- One more temporary has a name of its own, too. -/
theorem OverrideApart.declareLocal {s : TransformState} (h : s.OverrideApart) (name : String)
    (type : CppType) : (s.declareLocal .override name type).2.OverrideApart := by
  obtain ⟨hself, hnew, hnative⟩ := notMem_taken_override.mp (freshName_notMem _ name)
  constructor
  · rw [overrideNames_declareLocal]
    exact List.nodup_append.mpr ⟨h.distinct, List.nodup_singleton _, by
      rintro a ha b hb rfl
      exact hnew (List.mem_singleton.mp hb ▸ ha)⟩
  all_goals
    rw [overrideNames_declareLocal]
    intro n hn
    rcases List.mem_append.mp hn with hn | hn
  · exact h.not_self n hn
  · exact List.mem_singleton.mp hn ▸ hself
  · exact h.apart n hn
  · exact List.mem_singleton.mp hn ▸ hnative

end TransformState

/-- The state of a function whose override has temporaries for its arguments only. -/
structure OverrideNamed (c : Callable) (s : TransformState) : Prop where
  nativeArgs : s.nativeArgs = paramsOf c
  nativeReturn : s.nativeReturn = c.result
  not_frozen : s.isFrozen = false
  apart : s.OverrideApart
  prefixed : ∀ n ∈ s.overrideNames, ∃ rest, n = "py_" ++ rest

namespace OverrideNamed

variable {c : Callable} {s t : TransformState}

/-- An edit that leaves the override alone leaves its temporaries alone. -/
private theorem congr (h : OverrideNamed c s) (hargs : t.nativeArgs = s.nativeArgs)
    (hreturn : t.nativeReturn = s.nativeReturn) (hfrozen : t.isFrozen = s.isFrozen)
    (hlocals : t.overrideLocals = s.overrideLocals) : OverrideNamed c t := by
  refine ⟨hargs.trans h.nativeArgs, hreturn.trans h.nativeReturn, hfrozen.trans h.not_frozen,
    ⟨?_, ?_, ?_⟩, ?_⟩ <;>
    simp only [overrideNames, nativeNames, hargs, hlocals]
  exacts [h.apart.distinct, h.apart.not_self, h.apart.apart, h.prefixed]

/-- **An edit keeps the names of the temporaries apart.** -/
theorem edit (h : OverrideNamed c s) (he : Edit s t) : OverrideNamed c t := by
  -- only the last edit touches what is said here of the override
  cases he with
  | @removeArg _ index he =>
    cases index with
    | zero =>
      simp only [TransformState.removeArg, Except.bind_eq_ok, Except.pure_eq_ok] at he
      obtain ⟨-, -, rfl⟩ := he
      unfold dropResult
      split <;> exact h.congr rfl rfl rfl rfl
    | succ native =>
      obtain ⟨place, -, rfl⟩ := removeArg_ok he
      exact h.congr rfl rfl rfl rfl
  | insertArg he =>
    simp only [TransformState.insertArg, Except.bind_eq_ok, Except.pure_eq_ok] at he
    obtain ⟨-, -, -, -, rfl⟩ := he
    exact h.congr rfl rfl rfl rfl
  | setCallParam he =>
    simp only [TransformState.setCallParam, Except.bind_eq_ok, Except.pure_eq_ok] at he
    obtain ⟨-, -, -, -, rfl⟩ := he
    exact h.congr rfl rfl rfl rfl
  | addResult he =>
    simp only [TransformState.addResult, Except.bind_eq_ok, Except.pure_eq_ok] at he
    obtain ⟨-, -, rfl⟩ := he
    exact h.congr rfl rfl rfl rfl
  | addVirtualResult he =>
    simp only [TransformState.addVirtualResult, Except.bind_eq_ok, Except.pure_eq_ok] at he
    obtain ⟨-, -, -, -, rfl⟩ := he
    exact h.congr rfl rfl rfl rfl
  | declareExposed => exact h.congr rfl rfl rfl rfl
  | declareOverride name type =>
    refine ⟨h.nativeArgs, h.nativeReturn, h.not_frozen, h.apart.declareLocal _ type, ?_⟩
    rw [overrideNames_declareLocal]
    intro n hn
    rcases List.mem_append.mp hn with hn | hn
    · exact h.prefixed n hn
    · obtain ⟨rest, hrest⟩ := freshName_eq_append (s.taken .override) ("py_" ++ name)
      exact ⟨name ++ rest, by rw [List.mem_singleton.mp hn, hrest, String.append_assoc]⟩

/-- A run of edits keeps them apart. -/
theorem edits (h : OverrideNamed c s) (he : Relation.ReflTransGen Edit s t) :
    OverrideNamed c t := by
  induction he with
  | refl => exact h
  | tail _ he ih => exact ih.edit he

/-- The override of an untransformed function has no temporaries yet. -/
theorem ofCallable (function : String) (c : Callable) :
    OverrideNamed c (TransformState.ofCallable function c) := by
  have hsignature : OverrideNamed c (signatureOf function c) :=
    ⟨rfl, rfl, rfl, ⟨List.nodup_nil, nofun, nofun⟩, nofun⟩
  cases hvoid : c.result.isVoid with
  | true =>
    rw [ofCallable_of_isVoid function hvoid]
    exact hsignature
  | false =>
    rw [ofCallable_of_result function hvoid]
    exact hsignature.congr rfl rfl rfl rfl

/-- What Python returns gets a temporary last, if Python is to return anything. -/
theorem freeze (h : OverrideNamed c s) : s.freeze.OverrideApart ∧
    (s.virtualResults ≠ [] →
      ("pyresult" ∈ s.freeze.overrideNames ↔ ∀ p ∈ paramsOf c, p.name ≠ "pyresult")) := by
  have hold : "pyresult" ∉ s.overrideNames := by
    intro hmem
    obtain ⟨rest, hrest⟩ := h.prefixed _ hmem
    exact prefixed_ne_pyresult rest hrest.symm
  by_cases hvirtual : s.virtualResults = []
  · rw [TransformState.freeze, if_pos (by simp [hvirtual])]
    exact ⟨⟨h.apart.distinct, h.apart.not_self, h.apart.apart⟩, fun hne => absurd hvirtual hne⟩
  · rw [TransformState.freeze, if_neg (by simp [hvirtual, h.not_frozen])]
    have hapart := h.apart.declareLocal "pyresult" objectType
    refine ⟨⟨hapart.distinct, hapart.not_self, hapart.apart⟩, fun _ => ?_⟩
    -- the temporary is the last one, and the earlier ones begin with `py_`
    calc "pyresult" ∈ (s.declareLocal .override "pyresult" objectType).2.overrideNames
        ↔ freshName (s.taken .override) "pyresult" = "pyresult" := by
          rw [overrideNames_declareLocal, List.mem_append, List.mem_singleton, eq_comm]
          exact or_iff_right hold
      _ ↔ "pyresult" ∉ s.taken .override := freshName_eq_self
      _ ↔ "pyresult" ∉ s.nativeNames := by
          rw [notMem_taken_override]
          simp [hold]
      _ ↔ ∀ p ∈ paramsOf c, p.name ≠ "pyresult" := by
          rw [nativeNames, h.nativeArgs]
          simp

end OverrideNamed

/-! ### Uses of the result -/

/-- The expression reads the variable of this name, or an entry of it. -/
def ReadsFrom (expr name : String) : Prop := expr = name ∨ ∃ place : Nat, expr = s!"{name}[{place}]"

/-- The override receives what Python returns in the variable `name`, and reads it from there where
a transformer takes a returned argument out and where it returns the native result. -/
structure Transformation.UsesResult (t : Transformation) (g : DeclGraph) (name : String) :
    Prop where
  received : (t.overrideCode g).resultAssignment = name ++ " = "
  extracted : ∀ a ∈ t.transformers, ∃ source, t.state.pyResultExpr a.spec.arg = .ok source ∧
    ReadsFrom source name
  returned : t.state.nativeReturn.isVoid = false → ∃ source,
    (t.overrideCode g).returnStmt =
      "return boost::python::extract< " ++ g.spell t.state.nativeReturn ++ " >( " ++ source ++
        " );" ∧
    ReadsFrom source name

theorem TransformState.readsFrom_pyResultAt (s : TransformState) (place : Nat) :
    ReadsFrom (s.pyResultAt place) "pyresult" := by
  unfold pyResultAt
  split
  · exact .inr ⟨place, rfl⟩
  · exact .inl rfl

/-- What Python returns is received in `pyresult` and read from there, and from nowhere else. -/
theorem Transformation.usesResult_iff {t : Transformation} {g : DeclGraph} {name : String}
    (hargs : ∀ a ∈ t.transformers, ∃ p, t.state.arg a.spec.arg = .ok p)
    (hvirtual : t.state.virtualResults ≠ []) : t.UsesResult g name ↔ name = "pyresult" := by
  have hreceived : (t.overrideCode g).resultAssignment = "pyresult" ++ " = " := by
    simp [overrideCode, TransformState.overrideCode, hvirtual]
  constructor
  · intro h
    exact (String.append_left_inj " = ").mp (h.received.symm.trans hreceived)
  · rintro rfl
    refine ⟨hreceived, fun a ha => ?_, fun hvoid => ?_⟩
    · obtain ⟨p, hp⟩ := hargs a ha
      refine ⟨_, ?_, t.state.readsFrom_pyResultAt
        ((t.state.virtualResults.findIdx? (· == .arg p.name)).getD 0)⟩
      rw [pyResultExpr, hp]
      rfl
    · refine ⟨_, ?_, t.state.readsFrom_pyResultAt
        ((t.state.virtualResults.findIdx? (· == .nativeReturn)).getD 0)⟩
      simp [overrideCode, TransformState.overrideCode, hvoid]

/-! ### Whole lists of transformers -/

/-- The override has temporaries for its arguments before the edits end, and the arguments of its
transformers are native parameters. -/
theorem overrideNamed_run {function : String} {c : Callable} {specs : List TransformerSpec}
    {t : Transformation}
    (hrun : specs.foldlM Transformation.extend { state := TransformState.ofCallable function c } =
      .ok t) :
    OverrideNamed c t.state ∧ ∀ a ∈ t.transformers, ∃ p, t.state.arg a.spec.arg = .ok p := by
  refine Except.foldlM_invariant
    (fun _ t => OverrideNamed c t.state ∧
      ∀ a ∈ t.transformers, ∃ p, t.state.arg a.spec.arg = .ok p)
    ?_ specs [] _ t ⟨.ofCallable function c, nofun⟩ hrun
  rintro - spec t t' ⟨hn, hargs⟩ he
  simp only [Transformation.extend, Except.bind_eq_ok, Except.pure_eq_ok] at he
  obtain ⟨⟨a, s⟩, ha, rfl⟩ := he
  have hn' : OverrideNamed c s := hn.edits (apply_edits ha)
  have hnative : s.nativeArgs = t.state.nativeArgs := hn'.nativeArgs.trans hn.nativeArgs.symm
  obtain ⟨rfl, p, -, hp, -⟩ := apply_ok ha
  refine ⟨hn', fun b hb => ?_⟩
  rcases List.mem_append.mp hb with hb | hb
  · obtain ⟨q, hq⟩ := hargs b hb
    exact ⟨q, arg_congr hnative hq⟩
  · rw [List.mem_singleton.mp hb]
    exact ⟨p, arg_congr hnative hp⟩

/-- **The override is unambiguous, and it keeps what Python returns in a temporary exactly if no
argument is called `pyresult`.**  Its temporaries have names of their own, which no native parameter
has. -/
theorem ofSpecs_override {function : String} {c : Callable} {specs : List TransformerSpec}
    {t : Transformation} (g : DeclGraph)
    (h : Transformation.ofSpecs function c specs = .ok t) :
    t.state.OverrideApart ∧ (t.state.virtualResults ≠ [] →
      ((∃ name ∈ t.state.overrideNames, t.UsesResult g name) ↔
        ∀ a ∈ c.args, a.name ≠ "pyresult")) := by
  simp only [Transformation.ofSpecs, Except.bind_eq_ok, Except.pure_eq_ok] at h
  obtain ⟨t₀, hrun, rfl⟩ := h
  obtain ⟨hnamed, hargs⟩ := overrideNamed_run hrun
  obtain ⟨hapart, hdeclared⟩ := hnamed.freeze
  have hfreeze := sameParams_freeze t₀.state
  have hvirtual := virtualResults_freeze t₀.state
  refine ⟨hapart, fun hne => ?_⟩
  have huses : ∀ name, Transformation.UsesResult { t₀ with state := t₀.state.freeze } g name ↔
      name = "pyresult" := by
    refine fun name => Transformation.usesResult_iff (fun a ha => ?_) hne
    obtain ⟨p, hp⟩ := hargs a ha
    exact ⟨p, arg_congr hfreeze.nativeArgs hp⟩
  simp only [huses, exists_eq_right]
  exact (hdeclared (hvirtual ▸ hne)).trans paramsOf_ne_pyresult

/-- A function whose parameters are pointers, two of them with the names of temporaries. -/
def withTemporaryNames : Callable where
  kind := .freeFunction
  args := ["py_x", "x", "self"].map fun name => ⟨name, .pointer (.fundamental .int), none⟩

/-- A temporary gets out of the way of a parameter, and the result is kept where it is read. -/
theorem ofSpecs_override_clashing :
    ∃ t, Transformation.ofSpecs "::f" withTemporaryNames [⟨.outputArray 3, 2⟩, ⟨.output, 3⟩] =
        .ok t ∧ t.state.overrideNames = ["py_x_2", "pyresult"] ∧ t.state.virtualResults ≠ [] ∧
      t.state.OverrideApart ∧ ∃ name ∈ t.state.overrideNames, t.UsesResult default name := by
  obtain ⟨t, h, hall⟩ := Except.exists_eq_ok_of_any
    (x := Transformation.ofSpecs "::f" withTemporaryNames [⟨.outputArray 3, 2⟩, ⟨.output, 3⟩])
    (p := fun t => t.state.overrideNames = ["py_x_2", "pyresult"] ∧ t.state.virtualResults ≠ [])
    (by decide +kernel)
  obtain ⟨hnames, hvirtual⟩ := of_decide_eq_true hall
  obtain ⟨hapart, huses⟩ := ofSpecs_override default h
  exact ⟨t, h, hnames, hvirtual, hapart, (huses hvirtual).mpr (by decide)⟩

/-- What Python returns is received in the parameter that is called `pyresult`; the temporary for
it is not used. -/
theorem ofSpecs_override_pyresult :
    (ofReferences ["pyresult"]).argNames.Nodup ∧
      ∃ t, Transformation.ofSpecs "::f" (ofReferences ["pyresult"]) [⟨.output, 1⟩] = .ok t ∧
        t.state.overrideNames = ["pyresult_2"] ∧ t.state.virtualResults ≠ [] ∧
        (t.overrideCode default).resultAssignment = "pyresult = " ∧
        ¬ ∃ name ∈ t.state.overrideNames, t.UsesResult default name := by
  refine ⟨by decide, ?_⟩
  obtain ⟨t, h, hall⟩ := Except.exists_eq_ok_of_any
    (x := Transformation.ofSpecs "::f" (ofReferences ["pyresult"]) [⟨.output, 1⟩])
    (p := fun t => t.state.overrideNames = ["pyresult_2"] ∧ t.state.virtualResults ≠ [] ∧
      (t.overrideCode default).resultAssignment = "pyresult = ") (by decide +kernel)
  obtain ⟨hnames, hvirtual, hreceived⟩ := of_decide_eq_true hall
  refine ⟨t, h, hnames, hvirtual, hreceived, ?_⟩
  rintro ⟨name, hname, huses⟩
  rw [hnames, List.mem_singleton] at hname
  have hsame : name ++ " = " = "pyresult = " := huses.received.symm.trans hreceived
  rw [hname] at hsame
  exact absurd hsame (by decide)

end Bindery
