import Bindery.Proofs.Transform.Edits
import Mathlib.Data.List.Nodup
import Mathlib.Data.List.Perm.Subperm
import Mathlib.Data.List.Range

/-!
# What a transformer declares and returns

A transformer fills a variable of the exposed function: the parameter itself, or a temporary that it
declares.  If it returns its argument, it appends the variable to the exposed results and the
argument to the values of an override.  A temporary gets a name that neither a parameter nor another
temporary of its side has.

## Main definitions

* `TransformerSpec.returns` — the sorts that return their argument.
* `Transformer.Holds` — the variable of the exposed function that holds a returned argument.
* `Exchanged` — a transformer has put other parameters on both sides.
* `Extended` — it has declared temporaries and added returned values to the two lists.
* `Passes` — what is passed to the native function is a variable or a pointer to it.

## Main results

* `freshName_notMem` — **the name of a temporary is new.**
* `apply_exchanges` — each transformer appends to both lists of returned values or to neither.
-/

namespace Bindery

/-! ### New names -/

/-- Numbers with the same digits are the same. -/
theorem repr_inj {i j : Nat} (h : i.repr = j.repr) : i = j := by
  have hdigits := congrArg String.toList h
  rw [Nat.toList_repr, Nat.toList_repr] at hdigits
  have hvalue : ∀ n, Nat.ofDigitChars 10 (Nat.toDigits 10 n) 0 = n := fun n =>
    Nat.ofDigitChars_toDigits (by omega) (Nat.le_refl 10)
  rw [← hvalue i, hdigits, hvalue j]

private theorem numbered_inj {name : String} {i j : Nat} (h : s!"{name}_{i}" = s!"{name}_{j}") :
    i = j :=
  repr_inj ((String.append_right_inj (name ++ "_")).mp h)

private theorem name_ne_numbered {name : String} {i : Nat} : name ≠ s!"{name}_{i}" := by
  intro h
  have hlength := congrArg String.length h
  have htext : s!"{name}_{i}" = name ++ ("_" ++ i.repr) := String.append_assoc
  rw [htext, String.length_append, String.length_append] at hlength
  have hone : "_".length = 1 := rfl
  omega

/-- If a numbered name that is found is taken, so are the ones that were tried before. -/
private theorem mem_of_freshFrom_mem {taken : List String} {name : String} :
    ∀ {fuel next : Nat}, freshFrom taken name fuel next ∈ taken →
      ∀ i, next ≤ i → i < next + fuel → s!"{name}_{i}" ∈ taken := by
  intro fuel
  induction fuel with
  | zero => intro next _ i _ _; omega
  | succ fuel ih =>
    intro next h i hi hlt
    rw [freshFrom] at h
    split at h
    · next hmem =>
      rcases Nat.eq_or_lt_of_le hi with rfl | hi
      · exact hmem
      · exact ih h i hi (by omega)
    · next hnew => exact absurd h hnew

/-- **The name of a temporary is new.** -/
theorem freshName_notMem (taken : List String) (name : String) : freshName taken name ∉ taken := by
  unfold freshName
  split
  · next hname =>
    intro hmem
    -- the name and its numbered forms would be more names than are taken
    let tried := name :: (List.range' 2 taken.length).map fun i => s!"{name}_{i}"
    have hnodup : tried.Nodup := by
      refine List.nodup_cons.mpr ⟨?_, List.Nodup.map (fun _ _ h => numbered_inj h) ?_⟩
      · intro h
        obtain ⟨i, -, hi⟩ := List.mem_map.mp h
        exact name_ne_numbered hi.symm
      · exact List.nodup_range'
    have hsub : tried ⊆ taken := by
      intro n hn
      rcases List.mem_cons.mp hn with rfl | hn
      · exact hname
      · obtain ⟨i, hi, rfl⟩ := List.mem_map.mp hn
        obtain ⟨hlow, hhigh⟩ := List.mem_range'_1.mp hi
        exact mem_of_freshFrom_mem hmem i hlow hhigh
    have hle := (hnodup.subperm hsub).length_le
    simp only [tried, List.length_cons, List.length_map, List.length_range'] at hle
    omega
  · next hnew => exact hnew

namespace TransformState

/-- The names of the temporaries of the exposed function. -/
def localNames (s : TransformState) : List String := s.exposedLocals.map (·.name)

/-- The names of the parameters of the exposed function. -/
def paramNames (s : TransformState) : List String := s.exposed.map (·.2.name)

/-- A name that an exposed temporary can have is not that of the object, of another temporary or of
a parameter. -/
theorem notMem_taken_exposed {s : TransformState} {n : String} :
    n ∉ s.taken .exposed ↔ n ≠ "self" ∧ n ∉ s.localNames ∧ n ∉ s.paramNames := by
  simp only [taken, List.cons_append, List.mem_cons, List.mem_append, not_or]
  exact Iff.rfl

/-- The name of an exposed temporary is new. -/
theorem freshName_exposed (s : TransformState) (name : String) :
    freshName (s.taken .exposed) name ≠ "self" ∧
      freshName (s.taken .exposed) name ∉ s.localNames ∧
      freshName (s.taken .exposed) name ∉ s.paramNames :=
  notMem_taken_exposed.mp (freshName_notMem _ name)

/-! ### Untransformed functions -/

/-- A function that returns nothing starts with its signature alone. -/
theorem ofCallable_of_isVoid (function : String) {c : Callable} (h : c.result.isVoid = true) :
    TransformState.ofCallable function c = signatureOf function c := if_pos h

/-- A function that returns something starts with a temporary for that. -/
theorem ofCallable_of_result (function : String) {c : Callable} (h : c.result.isVoid = false) :
    TransformState.ofCallable function c =
      { (signatureOf function c).declareLocal .exposed "result"
          c.result.removeReference.removeCv |>.2 with
        results := [⟨freshName ((signatureOf function c).taken .exposed) "result",
          c.result.removeReference.removeCv⟩]
        resultVar := some (freshName ((signatureOf function c).taken .exposed) "result")
        virtualResults := [.nativeReturn] } :=
  if_neg (by rw [Bool.not_eq_true]; exact h)

/-! ### Exchanged parameters -/

/-- From `s` to `t` only the parameters of the two sides have changed, and of the exposed ones only
that of the native parameter `p`, number `k`. -/
structure Exchanged (k : Nat) (p : Param) (s t : TransformState) : Prop where
  nativeArgs : t.nativeArgs = s.nativeArgs
  nativeReturn : t.nativeReturn = s.nativeReturn
  resultVar : t.resultVar = s.resultVar
  exposedLocals : t.exposedLocals = s.exposedLocals
  results : t.results = s.results
  virtualResults : t.virtualResults = s.virtualResults
  callParams : t.callParams = s.callParams
  mem_exposed : ∀ e ∈ t.exposed, e ∈ s.exposed ∨ e.1 = k ∧ e.2.name = p.name
  kept : ∀ e ∈ s.exposed, e.1 ≠ k → e ∈ t.exposed

theorem Exchanged.trans {k : Nat} {p : Param} {s t u : TransformState} (h : Exchanged k p s t)
    (h' : Exchanged k p t u) : Exchanged k p s u where
  nativeArgs := h'.nativeArgs.trans h.nativeArgs
  nativeReturn := h'.nativeReturn.trans h.nativeReturn
  resultVar := h'.resultVar.trans h.resultVar
  exposedLocals := h'.exposedLocals.trans h.exposedLocals
  results := h'.results.trans h.results
  virtualResults := h'.virtualResults.trans h.virtualResults
  callParams := h'.callParams.trans h.callParams
  mem_exposed e he := (h'.mem_exposed e he).elim (h.mem_exposed e) .inr
  kept e he hk := h'.kept e (h.kept e he hk) hk

theorem exchanged_removeArg {s t : TransformState} {k : Nat} (p : Param)
    (h : s.removeArg (k + 1) = .ok t) : Exchanged k p s t := by
  obtain ⟨place, -, rfl⟩ := removeArg_ok h
  refine ⟨rfl, rfl, rfl, rfl, rfl, rfl, rfl, ?_, ?_⟩
  · intro e he
    exact .inl (List.mem_filter.mp he).1
  · intro e he hk
    exact List.mem_filter.mpr ⟨he, by simpa using hk⟩

theorem exchanged_insertArg {s t : TransformState} {k : Nat} {p param : Param} {expr : String}
    (h : s.insertArg (k + 1) param expr = .ok t) (hname : param.name = p.name) :
    Exchanged k p s t ∧ (k, param) ∈ t.exposed := by
  cases insertArg_ok h
  have hmem : ∀ e,
      e ∈ s.exposed.takeWhile (·.1 ≤ k) ++ (k, param) :: s.exposed.dropWhile (·.1 ≤ k) ↔
        e = (k, param) ∨ e ∈ s.exposed := fun e => by
    rw [List.perm_middle.mem_iff, List.mem_cons, List.takeWhile_append_dropWhile]
  refine ⟨⟨rfl, rfl, rfl, rfl, rfl, rfl, rfl, ?_, ?_⟩, (hmem _).mpr (.inl rfl)⟩
  · intro e he
    rcases (hmem e).mp he with rfl | he
    · exact .inr ⟨rfl, hname⟩
    · exact .inl he
  · intro e he _
    exact (hmem e).mpr (.inr he)

theorem exchanged_declareLocal (k : Nat) (p : Param) (s : TransformState) (name : String)
    (type : CppType) : Exchanged k p s (s.declareLocal .override name type).2 :=
  ⟨rfl, rfl, rfl, rfl, rfl, rfl, rfl, fun _ => .inl, fun _ he _ => he⟩

/-! ### Declared temporaries and returned values -/

/-- From `s` to `t` the temporaries `new` have been declared on the exposed side, and the values
`values` and `virtual` have been added to the two lists of returned values; what is passed to the
native function has changed for the native parameter number `k` only. -/
structure Extended (k : Nat) (new : List LocalVar) (values : List ResultExpr)
    (virtual : List VirtualResult) (s t : TransformState) : Prop where
  nativeArgs : t.nativeArgs = s.nativeArgs
  nativeReturn : t.nativeReturn = s.nativeReturn
  resultVar : t.resultVar = s.resultVar
  exposed : t.exposed = s.exposed
  exposedLocals : t.exposedLocals = s.exposedLocals ++ new
  distinct : s.localNames.Nodup → t.localNames.Nodup
  fresh : ∀ l ∈ new, l.name ≠ "self" ∧ l.name ∉ s.localNames ∧ l.name ∉ s.paramNames
  results : t.results = s.results ++ values
  virtualResults : t.virtualResults = s.virtualResults ++ virtual
  callParams : ∀ i ≠ k, t.callParams[i]? = s.callParams[i]?

section

variable {k : Nat} {s t u : TransformState} {new new' : List LocalVar}
  {values values' : List ResultExpr} {virtual virtual' : List VirtualResult}

theorem Extended.trans (h : Extended k new values virtual s t)
    (h' : Extended k new' values' virtual' t u) :
    Extended k (new ++ new') (values ++ values') (virtual ++ virtual') s u where
  nativeArgs := h'.nativeArgs.trans h.nativeArgs
  nativeReturn := h'.nativeReturn.trans h.nativeReturn
  resultVar := h'.resultVar.trans h.resultVar
  exposed := h'.exposed.trans h.exposed
  exposedLocals := by rw [h'.exposedLocals, h.exposedLocals, List.append_assoc]
  distinct hs := h'.distinct (h.distinct hs)
  fresh l hl := by
    rcases List.mem_append.mp hl with hl | hl
    · exact h.fresh l hl
    · have hnew := h'.fresh l hl
      rw [localNames, h.exposedLocals, List.map_append, List.mem_append, not_or, paramNames,
        h.exposed] at hnew
      exact ⟨hnew.1, hnew.2.1.1, hnew.2.2⟩
  results := by rw [h'.results, h.results, List.append_assoc]
  virtualResults := by rw [h'.virtualResults, h.virtualResults, List.append_assoc]
  callParams i hi := (h'.callParams i hi).trans (h.callParams i hi)

theorem extended_declareLocal (k : Nat) (s : TransformState) (name : String) (type : CppType)
    (size : Option Nat) (initializer : Option String) :
    Extended k [⟨(s.declareLocal .exposed name type size initializer).1, type, size, initializer⟩]
      [] [] s (s.declareLocal .exposed name type size initializer).2 := by
  have hnew := s.freshName_exposed name
  refine ⟨rfl, rfl, rfl, rfl, rfl, ?_, ?_, ?_, ?_, fun _ _ => rfl⟩
  · intro hs
    simp only [localNames, declareLocal, List.map_append, List.map_cons, List.map_nil]
    exact List.nodup_append.mpr ⟨hs, List.nodup_singleton _, by
      rintro a ha b hb rfl
      rw [List.mem_singleton] at hb
      exact hnew.2.1 (hb ▸ ha)⟩
  · intro l hl
    rw [List.mem_singleton.mp hl]
    exact hnew
  · exact (List.append_nil _).symm
  · exact (List.append_nil _).symm

theorem extended_declareLocal_override (k : Nat) (s : TransformState) (name : String)
    (type : CppType) : Extended k [] [] [] s (s.declareLocal .override name type).2 := by
  refine ⟨rfl, rfl, rfl, rfl, ?_, id, ?_, ?_, ?_, fun _ _ => rfl⟩ <;> simp [declareLocal]

/-- What is passed to the native function for its parameter number `k` is replaced. -/
theorem extended_setCallParam {expr : String} (hlt : k < s.callParams.length)
    (h : s.setCallParam (k + 1) expr = .ok t) :
    Extended k [] [] [] s t ∧ t.callParams[k]? = some expr := by
  simp only [setCallParam, Except.bind_eq_ok, Except.pure_eq_ok, Nat.add_sub_cancel] at h
  obtain ⟨-, -, -, -, rfl⟩ := h
  refine ⟨⟨rfl, rfl, rfl, rfl, ?_, id, ?_, ?_, ?_, ?_⟩, ?_⟩
  · exact (List.append_nil _).symm
  · simp
  · exact (List.append_nil _).symm
  · exact (List.append_nil _).symm
  · intro i hi
    exact List.getElem?_set_ne hi.symm
  · exact List.getElem?_set_self hlt

theorem extended_addResult {expr : String} {type : CppType} (k : Nat)
    (h : s.addResult expr type = .ok t) :
    Extended k [] [⟨expr, type⟩] [] s t ∧ t.callParams = s.callParams := by
  simp only [addResult, Except.bind_eq_ok, Except.pure_eq_ok] at h
  obtain ⟨-, -, rfl⟩ := h
  refine ⟨⟨rfl, rfl, rfl, rfl, ?_, id, ?_, rfl, ?_, fun _ _ => rfl⟩, rfl⟩ <;> simp

theorem extended_addVirtualResult {p : Param} (hp : s.nativeArgs[k]? = some p)
    (h : s.addVirtualResult (k + 1) = .ok t) :
    Extended k [] [] [.arg p.name] s t ∧ t.callParams = s.callParams := by
  simp only [addVirtualResult, Except.bind_eq_ok, Except.pure_eq_ok] at h
  obtain ⟨-, -, q, hq, rfl⟩ := h
  obtain ⟨k', hk, hq⟩ := arg_eq_ok.mp hq
  cases Nat.succ.inj hk
  cases hp.symm.trans hq
  refine ⟨⟨rfl, rfl, rfl, rfl, ?_, id, ?_, ?_, rfl, fun _ _ => rfl⟩, rfl⟩ <;> simp

end

end TransformState

/-! ### Transformers -/

/-- The expression passes the variable of this name, or a pointer to it. -/
def Passes (expr name : String) : Prop := expr = name ∨ expr = "&" ++ name

theorem passes_pointer (t : CppType) (name : String) :
    Passes (if t.isPointer then "&" ++ name else name) name := by
  split
  · exact .inr rfl
  · exact .inl rfl

/-- The name is that of one of the temporaries `new` or of the exposed parameter in the place of the
native parameter number `k`. -/
def TransformState.OwnVariable (s : TransformState) (k : Nat) (new : List LocalVar)
    (name : String) : Prop :=
  name ∈ new.map (·.name) ∨ ∃ e ∈ s.exposed, e.1 = k ∧ e.2.name = name

/-- The transformer returns its argument. -/
def TransformerSpec.returns (spec : TransformerSpec) : Bool :=
  match spec.kind with
  | .output | .inout | .outputArray _ => true
  | .input | .inputArray _ => false

/-- Behind the native call of the exposed function, the variable `e` holds the argument that the
transformer returns: the call fills it, or an array that is copied to it. -/
def Transformer.Holds (a : Transformer) (s : TransformState) (e : String) : Prop :=
  match a.action with
  | .output _ type | .inout _ type =>
    s.callParams[a.spec.arg - 1]? = some (if type.isPointer then "&" ++ e else e)
  | .outputArray _ _ _ array list _ => s.callParams[a.spec.arg - 1]? = some array ∧ e = list
  | .input | .inputArray .. => False

namespace TransformerSpec

open TransformState

variable {spec : TransformerSpec} {s t : TransformState} {action : TransformerAction}

/-- The transformer has exchanged the parameters of its argument and has then, if it is of a sort
that returns the argument, added one value to each list of returned values: a variable that holds
the argument, and the argument.  What is passed on for the argument is a variable of its own. -/
def Exchanges (spec : TransformerSpec) (s : TransformState) (a : Transformer) (t : TransformState) :
    Prop :=
  ∃ k p u new, ∃ value? : Option ResultExpr, spec.arg = k + 1 ∧ s.nativeArgs[k]? = some p ∧
    Exchanged k p s u ∧
    Extended k new value?.toList (value?.map fun _ => .arg p.name).toList u t ∧
    (∃ n e, u.OwnVariable k new n ∧ t.callParams[k]? = some e ∧ Passes e n) ∧
    value?.isSome = spec.returns ∧
    ∀ r ∈ value?, a.Holds t r.expr ∧ u.OwnVariable k new r.expr

/-- A parameter of the right sort is a native parameter, for which something is passed. -/
theorem exists_param {p : Param} (hlength : s.callParams.length = s.nativeArgs.length)
    (hp : s.arg spec.arg = .ok p) :
    ∃ k, spec.arg = k + 1 ∧ s.nativeArgs[k]? = some p ∧ k < s.callParams.length := by
  obtain ⟨k, hk, hp⟩ := arg_eq_ok.mp hp
  exact ⟨k, hk, hp, hlength ▸ (List.getElem?_eq_some_iff.mp hp).1⟩

theorem exchanges_applyOutput (hlength : s.callParams.length = s.nativeArgs.length)
    (hkind : spec.kind = .output) (h : spec.applyOutput s = .ok (action, t)) :
    Exchanges spec s ⟨spec, action⟩ t := by
  simp only [applyOutput, Except.bind_eq_ok, Except.pure_eq_ok, Prod.mk.injEq] at h
  obtain ⟨p, hp, r, hr, u₁, h₁, u₂, h₂, u₃, h₃, rfl, rfl⟩ := h
  obtain ⟨k, hk, hp, hlt⟩ := exists_param hlength (indirectArg_ok hp)
  rw [hk] at hr h₁ h₃
  have hexchanged := exchanged_removeArg p hr
  have hdeclared := extended_declareLocal k r p.name p.type.valueType none none
  obtain ⟨hset, hcall⟩ := extended_setCallParam (hexchanged.callParams ▸ hlt) h₁
  obtain ⟨hresult, hcall₂⟩ := extended_addResult k h₂
  have hp₂ : u₂.nativeArgs[k]? = some p := by
    rw [hresult.nativeArgs, hset.nativeArgs, hdeclared.nativeArgs, hexchanged.nativeArgs]
    exact hp
  obtain ⟨hvirtual, hcall₃⟩ := extended_addVirtualResult hp₂ h₃
  rw [← hcall₂, ← hcall₃] at hcall
  refine ⟨k, p, r, _, some _, hk, hp, hexchanged,
    hdeclared.trans (hset.trans (hresult.trans hvirtual)),
    ⟨_, _, .inl (by simp), hcall, passes_pointer ..⟩, by simp [returns, hkind], ?_⟩
  rintro _ ⟨⟩
  refine ⟨?_, .inl (by simp)⟩
  simp only [Transformer.Holds, hk, Nat.add_sub_cancel]
  exact hcall

/-- A parameter that is passed by value keeps its name. -/
theorem exchanges_passByValue {k : Nat} {p : Param} (hlt : k < s.callParams.length)
    (h : passByValue (k + 1) p s = .ok t) :
    ∃ u, Exchanged k p s u ∧ (∃ e ∈ u.exposed, e.1 = k ∧ e.2.name = p.name) ∧
      Extended k [] [] [] u t ∧
      t.callParams[k]? = some (if p.type.isPointer then "&" ++ p.name else p.name) := by
  simp only [passByValue, Except.bind_eq_ok] at h
  obtain ⟨r, hr, u, hu, h⟩ := h
  have hremoved := exchanged_removeArg p hr
  obtain ⟨hinserted, hmem⟩ := exchanged_insertArg hu (rfl : _ = p.name)
  have hexchanged := hremoved.trans hinserted
  obtain ⟨hset, hcall⟩ := extended_setCallParam (hexchanged.callParams ▸ hlt) h
  exact ⟨u, hexchanged, ⟨_, hmem, rfl, rfl⟩, hset, hcall⟩

theorem exchanges_applyInput (hlength : s.callParams.length = s.nativeArgs.length)
    (hkind : spec.kind = .input) (h : spec.applyInput s = .ok (action, t)) :
    Exchanges spec s ⟨spec, action⟩ t := by
  simp only [applyInput, Except.bind_eq_ok, Except.pure_eq_ok, Prod.mk.injEq] at h
  obtain ⟨p, hp, t', h, rfl, rfl⟩ := h
  obtain ⟨k, hk, hp, hlt⟩ := exists_param hlength (indirectArg_ok hp)
  rw [hk] at h
  obtain ⟨u, hexchanged, hexposed, hset, hcall⟩ := exchanges_passByValue hlt h
  exact ⟨k, p, u, [], none, hk, hp, hexchanged, hset,
    ⟨p.name, _, .inr hexposed, hcall, passes_pointer ..⟩, by simp [returns, hkind], by simp⟩

theorem exchanges_applyInout (hlength : s.callParams.length = s.nativeArgs.length)
    (hkind : spec.kind = .inout) (h : spec.applyInout s = .ok (action, t)) :
    Exchanges spec s ⟨spec, action⟩ t := by
  simp only [applyInout, Except.bind_eq_ok, Except.pure_eq_ok, Prod.mk.injEq] at h
  obtain ⟨p, hp, u₁, h₁, u₂, h₂, u₃, h₃, rfl, rfl⟩ := h
  obtain ⟨k, hk, hp, hlt⟩ := exists_param hlength (indirectArg_ok hp)
  rw [hk] at h₁ h₃
  obtain ⟨u, hexchanged, hexposed, hset, hcall⟩ := exchanges_passByValue hlt h₁
  obtain ⟨hresult, hcall₂⟩ := extended_addResult k h₂
  have hp₂ : u₂.nativeArgs[k]? = some p := by
    rw [hresult.nativeArgs, hset.nativeArgs, hexchanged.nativeArgs]
    exact hp
  obtain ⟨hvirtual, hcall₃⟩ := extended_addVirtualResult hp₂ h₃
  rw [← hcall₂, ← hcall₃] at hcall
  refine ⟨k, p, u, _, some _, hk, hp, hexchanged, hset.trans (hresult.trans hvirtual),
    ⟨p.name, _, .inr hexposed, hcall, passes_pointer ..⟩, by simp [returns, hkind], ?_⟩
  rintro _ ⟨⟩
  refine ⟨?_, .inr hexposed⟩
  simp only [Transformer.Holds, hk, Nat.add_sub_cancel]
  exact hcall

theorem exchanges_applyInputArray {size : Nat} (hlength : s.callParams.length = s.nativeArgs.length)
    (hkind : spec.kind = .inputArray size) (h : spec.applyInputArray size s = .ok (action, t)) :
    Exchanges spec s ⟨spec, action⟩ t := by
  simp only [applyInputArray, Except.bind_eq_ok, Except.pure_eq_ok, Prod.mk.injEq] at h
  obtain ⟨p, hp, r, hr, u, hu, t', h, rfl, rfl⟩ := h
  obtain ⟨k, hk, hp, hlt⟩ := exists_param hlength (arrayArg_ok hp)
  rw [hk] at hr hu h
  -- the list that the override passes is declared between the removal and the insertion
  have hexchanged := (exchanged_removeArg p hr).trans
    ((exchanged_declareLocal k p r _ _).trans (exchanged_insertArg hu (rfl : _ = p.name)).1)
  have hdeclared := extended_declareLocal k u ("c_" ++ p.name) p.type.valueType (some size) none
  obtain ⟨hset, hcall⟩ := extended_setCallParam (hexchanged.callParams ▸ hlt) h
  exact ⟨k, p, u, _, none, hk, hp, hexchanged, hdeclared.trans hset,
    ⟨_, _, .inl (by simp), hcall, .inl rfl⟩, by simp [returns, hkind], by simp⟩

theorem exchanges_applyOutputArray {size : Nat}
    (hlength : s.callParams.length = s.nativeArgs.length) (hkind : spec.kind = .outputArray size)
    (h : spec.applyOutputArray size s = .ok (action, t)) : Exchanges spec s ⟨spec, action⟩ t := by
  simp only [applyOutputArray, Except.bind_eq_ok, Except.pure_eq_ok, Prod.mk.injEq] at h
  obtain ⟨p, hp, r, hr, u₁, h₁, u₂, h₂, t', h₃, rfl, rfl⟩ := h
  obtain ⟨k, hk, hp, hlt⟩ := exists_param hlength (arrayArg_ok hp)
  rw [hk] at hr h₁ h₃
  have hexchanged := exchanged_removeArg p hr
  have harray := extended_declareLocal k r ("c_" ++ p.name) p.type.valueType (some size) none
  have hlist := extended_declareLocal k (r.declareLocal .exposed ("c_" ++ p.name)
    p.type.valueType (some size)).2 p.name listType none none
  obtain ⟨hset, hcall⟩ := extended_setCallParam (hexchanged.callParams ▸ hlt) h₁
  obtain ⟨hresult, hcall₂⟩ := extended_addResult k h₂
  have hobject := extended_declareLocal_override k u₂ ("py_" ++ p.name) objectType
  have hp₂ :
      (u₂.declareLocal .override ("py_" ++ p.name) objectType).2.nativeArgs[k]? = some p := by
    rw [hobject.nativeArgs, hresult.nativeArgs, hset.nativeArgs, hlist.nativeArgs,
      harray.nativeArgs, hexchanged.nativeArgs]
    exact hp
  obtain ⟨hvirtual, hcall₃⟩ := extended_addVirtualResult hp₂ h₃
  have hpassed : t'.callParams[k]? = some _ :=
    (congrArg (·[k]?) (hcall₃.trans hcall₂)).trans hcall
  refine ⟨k, p, r, _, some _, hk, hp, hexchanged, harray.trans (hlist.trans (hset.trans
    (hresult.trans (hobject.trans hvirtual)))), ⟨_, _, .inl (by simp), hpassed, .inl rfl⟩,
    by simp [returns, hkind], ?_⟩
  rintro _ ⟨⟩
  refine ⟨⟨?_, rfl⟩, .inl (by simp)⟩
  simp only [hk, Nat.add_sub_cancel]
  exact hpassed

/-- **A transformer adds one value to each list of returned values or none to either**, and each
added value is in a variable that holds the argument. -/
theorem apply_exchanges {a : Transformer} (hlength : s.callParams.length = s.nativeArgs.length)
    (h : spec.apply s = .ok (a, t)) : a.spec = spec ∧ Exchanges spec s a t := by
  cases hkind : spec.kind <;>
    simp only [apply, hkind, Except.bind_eq_ok, Except.pure_eq_ok, Prod.mk.injEq] at h <;>
    obtain ⟨⟨action, u⟩, h, rfl, rfl⟩ := h
  · exact ⟨rfl, exchanges_applyOutput hlength hkind h⟩
  · exact ⟨rfl, exchanges_applyInput hlength hkind h⟩
  · exact ⟨rfl, exchanges_applyInout hlength hkind h⟩
  · exact ⟨rfl, exchanges_applyInputArray hlength hkind h⟩
  · exact ⟨rfl, exchanges_applyOutputArray hlength hkind h⟩

end TransformerSpec

end Bindery
