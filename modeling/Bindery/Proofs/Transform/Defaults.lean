import Bindery.Proofs.Transform.OverrideOrder

/-!
# Default values of the exposed function

The exposed function declares its parameters with the default values of the native ones.  A
parameter that a transformer puts in has none, while those in front of it that no transformer deals
with keep theirs.  So default values need not be at the end any more, where C++ wants them.

## Main definitions

* `DefaultsLast values` — default values are at the end.
* `KeepsDefaultsLast c specs` — transformers put no parameter behind a default value that stays.
* `ExposesDefaults c done s` — just the parameters that no transformer deals with have default
  values.

## Main results

* `apply_undefaulted` — what a transformer puts in has no default value.
* `ExposesDefaults.extend` — one more transformer takes the default value of its argument.
* `ofSpecs_defaultsLast_iff` — **the default values stay at the end exactly if no transformer puts
  its parameter behind one that stays.**
-/

namespace Bindery

open TransformState

/-- All parameters behind one with a default value have default values. -/
def DefaultsLast (values : List (Option String)) : Prop :=
  values.Pairwise fun front back => front.isSome → back.isSome

instance (values : List (Option String)) : Decidable (DefaultsLast values) :=
  inferInstanceAs (Decidable (values.Pairwise _))

/-- The default value of an argument, counted from 0. -/
def Callable.defaultAt? (c : Callable) (native : Nat) : Option String :=
  c.args[native]?.bind (·.default?)

/-- If a transformer of the list puts a parameter in the place of its own, all arguments with
default values in front of that are dealt with by transformers, too. -/
def KeepsDefaultsLast (c : Callable) (specs : List TransformerSpec) : Prop :=
  ∀ e ∈ specs, e.replaces = true → ∀ native < e.arg - 1, (c.defaultAt? native).isSome →
    ∃ d ∈ specs, d.arg = native + 1

instance (c : Callable) (specs : List TransformerSpec) : Decidable (KeepsDefaultsLast c specs) :=
  inferInstanceAs (Decidable (∀ e ∈ specs, _ → ∀ native < e.arg - 1, _ → ∃ d ∈ specs, _))

/-! ### Lists in the order of a key -/

/-- In an ascending list, entries stand in the order of their keys. -/
private theorem pairwise_iff_of_ascending {α : Type} {R : α → α → Prop} {key : α → Nat} {l : List α}
    (h : (l.map key).Pairwise (· < ·)) :
    l.Pairwise R ↔ ∀ x ∈ l, ∀ y ∈ l, key x < key y → R x y := by
  have hkeys : l.Pairwise fun x y => key x < key y := List.pairwise_map.mp h
  constructor
  · intro hR x hx y hy
    -- an entry with a greater key does not stand in front
    refine List.Pairwise.forall_of_forall_of_flip (R := fun x y => key x < key y → R x y)
      (fun x _ hlt => absurd hlt (Nat.lt_irrefl _)) (hR.imp ?_) (hkeys.imp ?_) hx hy
    · exact fun hxy _ => hxy
    · exact fun hlt hgt => absurd hgt (Nat.lt_asymm hlt)
  · intro hR
    exact hkeys.imp_of_mem fun hx hy hxy => hR _ hx _ hy hxy

/-! ### Exposed parameters behind a transformer -/

/-- From `s` to `t` no parameter has been exposed but one without a default value, in the place of
the native parameter number `k`, which is not exposed itself any more. -/
def Undefaulted (k : Nat) (s t : TransformState) : Prop :=
  ∀ e ∈ t.exposed, e ∈ s.exposed ∧ e.1 ≠ k ∨ e.1 = k ∧ e.2.default? = none

section

variable {k : Nat} {s r r' u t : TransformState} {param : Param} {text : String}

theorem undefaulted_removeArg (h : s.removeArg (k + 1) = .ok r) : Undefaulted k s r := by
  obtain ⟨place, -, rfl⟩ := removeArg_ok h
  intro e he
  obtain ⟨he, hk⟩ := List.mem_filter.mp he
  exact .inl ⟨he, of_decide_eq_true hk⟩

theorem Undefaulted.congr (h : Undefaulted k s r) (hrt : SameParams r t) : Undefaulted k s t := by
  intro e he
  rw [hrt.exposed] at he
  exact h e he

theorem Undefaulted.insertArg (h : Undefaulted k s r) (hparam : param.default? = none)
    (hi : r.insertArg (k + 1) param text = .ok t) : Undefaulted k s t := by
  cases insertArg_ok hi
  intro e he
  rw [List.perm_middle.mem_iff, List.mem_cons, List.takeWhile_append_dropWhile] at he
  rcases he with rfl | he
  · exact .inr ⟨rfl, hparam⟩
  · exact h e he

open TransformerSpec

theorem undefaulted_passByValue {p : Param} (h : passByValue (k + 1) p s = .ok t) :
    Undefaulted k s t := by
  simp only [passByValue, Except.bind_eq_ok] at h
  obtain ⟨r, hr, u, hu, h⟩ := h
  exact ((undefaulted_removeArg hr).insertArg rfl hu).congr (sameParams_setCallParam h)

variable {spec : TransformerSpec} {a : Transformer}

/-- A transformer that puts nothing in only takes its parameter out. -/
theorem undefaulted_of_handles (hk : spec.arg = k + 1) (h : Handles spec s a t)
    (hno : spec.replaces = false) : Undefaulted k s t := by
  obtain ⟨p, r, -, hr, hsome, hfill⟩ := h
  rw [hk] at hr
  rw [hno, Option.isSome_eq_false_iff, Option.isNone_iff_eq_none] at hsome
  rw [hsome] at hfill
  exact (undefaulted_removeArg hr).congr hfill

/-- **What a transformer puts in has no default value**, and stands in the place of its argument. -/
theorem apply_undefaulted (hk : spec.arg = k + 1) (h : spec.apply s = .ok (a, t)) :
    Undefaulted k s t := by
  -- the two sorts that put nothing in need not be looked at one by one
  by_cases hyes : spec.replaces = true
  · cases hkind : spec.kind <;> rw [replaces, hkind] at hyes <;>
      simp only [apply, hkind, Except.bind_eq_ok, Except.pure_eq_ok, Prod.mk.injEq] at h <;>
      obtain ⟨⟨action, u⟩, h, -, rfl⟩ := h
    · cases hyes
    · simp only [applyInput, Except.bind_eq_ok, Except.pure_eq_ok, Prod.mk.injEq] at h
      obtain ⟨p, -, u', h, -, rfl⟩ := h
      exact undefaulted_passByValue (hk ▸ h)
    · simp only [applyInout, Except.bind_eq_ok, Except.pure_eq_ok, Prod.mk.injEq] at h
      obtain ⟨p, -, u₁, h₁, u₂, h₂, u₃, h₃, -, rfl⟩ := h
      exact (undefaulted_passByValue (hk ▸ h₁)).congr
        ((sameParams_addResult h₂).trans (sameParams_addVirtualResult h₃))
    · simp only [applyInputArray, Except.bind_eq_ok, Except.pure_eq_ok, Prod.mk.injEq] at h
      obtain ⟨p, -, r, hr, u₁, h₁, u₂, h₂, -, rfl⟩ := h
      rw [hk] at hr h₁
      have hremoved := (undefaulted_removeArg hr).congr
        (sameParams_declareLocal r .override ("py_" ++ p.name) listType none none)
      exact (hremoved.insertArg rfl h₁).congr
        ((sameParams_declareLocal ..).trans (sameParams_setCallParam h₂))
    · cases hyes
  · exact undefaulted_of_handles hk (apply_ok h).2 (Bool.not_eq_true _ ▸ hyes)

end

/-! ### Lists of transformers -/

/-- The exposed parameters that no transformer of the list deals with have the default values of
their arguments, and the others have none. -/
def ExposesDefaults (c : Callable) (done : List TransformerSpec) (s : TransformState) : Prop :=
  ∀ e ∈ s.exposed, ∀ value,
    e.2.default? = some value ↔ IsUntouched done e.1 ∧ c.defaultAt? e.1 = some value

variable {function : String} {c : Callable} {done specs : List TransformerSpec}
  {spec : TransformerSpec} {t t' : Transformation}

theorem exposesDefaults_ofCallable (function : String) (c : Callable) :
    ExposesDefaults c [] (TransformState.ofCallable function c) := by
  intro e he value
  rw [(sameParams_ofCallable function c).exposed] at he
  obtain ⟨i, hi, rfl⟩ := List.mem_mapIdx.mp he
  have huntouched : IsUntouched [] i := nofun
  have hdefault : c.defaultAt? i = ((paramsOf c).get ⟨i, hi⟩).default? := by
    have hlt : i < c.args.length := length_paramsOf c ▸ hi
    simp [Callable.defaultAt?, paramsOf, List.getElem?_eq_getElem hlt]
  rw [and_iff_right huntouched, hdefault]
  rfl

/-- **One more transformer takes the default value of its argument**, and of no other. -/
theorem ExposesDefaults.extend (h : ExposesDefaults c done t.state) (he : t.extend spec = .ok t') :
    ExposesDefaults c (done ++ [spec]) t'.state := by
  simp only [Transformation.extend, Except.bind_eq_ok, Except.pure_eq_ok] at he
  obtain ⟨⟨a, s⟩, ha, rfl⟩ := he
  obtain ⟨-, p, r, hp, -⟩ := TransformerSpec.apply_ok ha
  obtain ⟨k, hk, -⟩ := arg_eq_ok.mp hp
  intro e he value
  rw [isUntouched_append_singleton hk]
  rcases apply_undefaulted hk ha e he with ⟨he, hne⟩ | ⟨hek, hnone⟩
  · rw [h e he value, and_iff_left hne]
  · rw [hnone]
    exact iff_of_false (Option.some_ne_none value).symm fun hall => hall.1.2 hek

theorem exposesDefaults_ofSpecs (h : Transformation.ofSpecs function c specs = .ok t) :
    ExposesDefaults c specs t.state := by
  simp only [Transformation.ofSpecs, Except.bind_eq_ok, Except.pure_eq_ok] at h
  obtain ⟨t₀, hrun, rfl⟩ := h
  have hall := Except.foldlM_invariant (fun done t => ExposesDefaults c done t.state)
    (fun done spec t t' hd he => hd.extend he) specs [] _ t₀
    (exposesDefaults_ofCallable function c) hrun
  rw [List.nil_append] at hall
  intro e he
  rw [(sameParams_freeze t₀.state).exposed] at he
  exact hall e he

theorem ExposesDefaults.isSome_iff (h : ExposesDefaults c done t.state) {e : Nat × Param}
    (he : e ∈ t.state.exposed) :
    e.2.default?.isSome ↔ IsUntouched done e.1 ∧ (c.defaultAt? e.1).isSome := by
  simp only [Option.isSome_iff_exists, h e he, exists_and_left]

/-- Arguments behind one with a default value have default values. -/
theorem isSome_defaultAt?_of_lt (hc : DefaultsLast (c.args.map (·.default?))) {i j : Nat}
    (hij : i < j) (hj : j < c.args.length) (hi : (c.defaultAt? i).isSome) :
    (c.defaultAt? j).isSome := by
  have hpair := List.pairwise_iff_getElem.mp (List.pairwise_map.mp hc) i j (by omega) hj hij
  have hget : ∀ k (hk : k < c.args.length), c.defaultAt? k = c.args[k].default? := by
    intro k hk
    rw [Callable.defaultAt?, List.getElem?_eq_getElem hk, Option.bind_some]
  rw [hget i (by omega)] at hi
  rw [hget j hj]
  exact hpair hi

/-- Exposed parameters stand in the order of the native ones. -/
theorem Ordered.defaultsLast_iff {order : List Nat} (ho : Ordered specs order t) :
    DefaultsLast (t.state.exposedParams.map (·.default?)) ↔
      ∀ x ∈ t.state.exposed, ∀ y ∈ t.state.exposed, x.1 < y.1 →
        x.2.default?.isSome → y.2.default?.isSome := by
  rw [DefaultsLast, exposedParams, List.map_map, List.pairwise_map]
  exact pairwise_iff_of_ascending ho.tracks.exposed

/-- An argument with a default value that no transformer deals with is exposed with it. -/
theorem exists_exposed_default {order : List Nat} (ho : Ordered specs order t)
    (hargs : t.state.nativeArgs = paramsOf c) (hd : ExposesDefaults c specs t.state) {i : Nat}
    (hu : IsUntouched specs i) (hi : (c.defaultAt? i).isSome) :
    ∃ x ∈ t.state.exposed, x.1 = i ∧ x.2.default?.isSome := by
  obtain ⟨value, hvalue⟩ := Option.isSome_iff_exists.mp hi
  obtain ⟨a, ha, -⟩ := Option.bind_eq_some_iff.mp hvalue
  have hlt : i < t.state.nativeArgs.length := by
    rw [hargs, length_paramsOf]
    exact (List.getElem?_eq_some_iff.mp ha).1
  have hmem := (ho.tracks.mem_exposed i).mpr (ho.tracks.untouched i hlt hu)
  obtain ⟨x, hx, rfl⟩ := List.mem_map.mp hmem
  exact ⟨x, hx, rfl, (hd.isSome_iff hx).mpr ⟨hu, hi⟩⟩

/-- **The default values of the exposed function are at the end exactly if no transformer puts its
parameter behind one that stays.** -/
theorem ofSpecs_defaultsLast_iff (g : DeclGraph) (selfType : Option String)
    (hc : DefaultsLast (c.args.map (·.default?)))
    (h : Transformation.ofSpecs function c specs = .ok t) :
    (t.exposedCode g selfType).argList = ", ".intercalate
        ((selfType.map (· ++ " & self")).toList ++ t.state.exposedParams.map (paramDeclaration g)) ∧
      (DefaultsLast (t.state.exposedParams.map (·.default?)) ↔ KeepsDefaultsLast c specs) := by
  refine ⟨rfl, ?_⟩
  obtain ⟨hargs, order, ho⟩ := ordered_ofSpecs h
  have hd := exposesDefaults_ofSpecs h
  rw [ho.defaultsLast_iff]
  constructor
  · intro hlast e he hreplaces i hi hdefault
    by_contra hnone
    have hu : IsUntouched specs i := fun d hd hdi => hnone ⟨d, hd, hdi⟩
    obtain ⟨x, hx, rfl, hxdefault⟩ := exists_exposed_default ho hargs hd hu hdefault
    obtain ⟨j, hj, hej⟩ := ho.replaced e he hreplaces
    obtain ⟨y, hy, rfl⟩ := List.mem_map.mp ((ho.tracks.mem_exposed j).mpr hj)
    -- the parameter that `e` has put in would have a default value
    have hydefault := hlast x hx y hy (by omega) hxdefault
    exact ((hd.isSome_iff hy).mp hydefault).1 e he hej
  · intro hkeeps x hx y hy hxy hxdefault
    obtain ⟨hu, hdefault⟩ := (hd.isSome_iff hx).mp hxdefault
    have hmem := (ho.tracks.mem_exposed y.1).mp (List.mem_map_of_mem hy)
    rcases ho.present y.1 hmem with huy | ⟨e, he, hreplaces, hey⟩
    · -- neither of the two has been dealt with, so that the native function decides
      have hlt := ho.tracks.lt y.1 hmem
      rw [hargs, length_paramsOf] at hlt
      exact (hd.isSome_iff hy).mpr ⟨huy, isSome_defaultAt?_of_lt hc hxy hlt hdefault⟩
    · obtain ⟨d, hd, hdx⟩ := hkeeps e he hreplaces x.1 (by omega) hdefault
      exact absurd hdx (hu d hd)

/-- A function that takes an integer and two pointers, which it can do without. -/
def withNullDefaults : Callable where
  kind := .freeFunction
  args := [⟨"x", .fundamental .int, none⟩, ⟨"a", .pointer (.fundamental .int), some "0"⟩,
    ⟨"b", .pointer (.fundamental .int), some "0"⟩]

/-- A parameter that is put in front of all default values leaves them at the end. -/
theorem ofSpecs_defaultsLast_iff_front :
    DefaultsLast (withNullDefaults.args.map (·.default?)) ∧
      ∃ t, Transformation.ofSpecs "::f" withNullDefaults [⟨.input, 2⟩] = .ok t ∧
        (t.exposedCode default none).argList = "int x, int a, int * b=0" ∧
        DefaultsLast (t.state.exposedParams.map (·.default?)) := by
  have hlast : DefaultsLast (withNullDefaults.args.map (·.default?)) := by decide
  refine ⟨hlast, ?_⟩
  obtain ⟨t, h, hargs⟩ := Except.exists_eq_ok_of_any
    (x := Transformation.ofSpecs "::f" withNullDefaults [⟨.input, 2⟩])
    (p := fun t => (t.exposedCode default none).argList = "int x, int a, int * b=0")
    (by decide +kernel)
  exact ⟨t, h, of_decide_eq_true hargs,
    (ofSpecs_defaultsLast_iff default none hlast h).2.mpr (by decide)⟩

/-- A parameter that is put behind a default value has none itself. -/
theorem ofSpecs_not_defaultsLast :
    DefaultsLast (withNullDefaults.args.map (·.default?)) ∧
      ∃ t, Transformation.ofSpecs "::f" withNullDefaults [⟨.input, 3⟩] = .ok t ∧
        (t.exposedCode default none).argList = "int x, int * a=0, int b" ∧
        ¬ DefaultsLast (t.state.exposedParams.map (·.default?)) := by
  refine ⟨by decide, ?_⟩
  obtain ⟨t, h, hall⟩ := Except.exists_eq_ok_of_any
    (x := Transformation.ofSpecs "::f" withNullDefaults [⟨.input, 3⟩])
    (p := fun t => (t.exposedCode default none).argList = "int x, int * a=0, int b" ∧
      ¬ DefaultsLast (t.state.exposedParams.map (·.default?))) (by decide +kernel)
  exact ⟨t, h, of_decide_eq_true hall⟩

end Bindery
