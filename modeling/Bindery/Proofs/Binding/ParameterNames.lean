import Bindery.Binding.Method
import Bindery.Proofs.Transform.Results

/-!
# The names of parameters in generated code

A parameter that is declared without a name is called by its place, counted from 0, wherever
generated code needs a name for it.  Nothing keeps another parameter from being declared with that
name.  Where the names that are declared differ, those of the generated code do so exactly if no
parameter is.

## Main definitions

* `Callable.NamesApart` — the names that parameters are declared with differ from each other and
  from those that the other parameters get.
* `DeclGraph.NamesParams` — the lists of the generated code that name all parameters of a function.

## Main results

* `argNames_nodup_iff` — the names that are declared or made up are different exactly if they are
  apart.
* `namesParams_nodup_iff` — **in each list of the generated code the parameters have different
  names exactly if their names are apart**, and then those that a transformed function has left have
  different names, too.
-/

namespace Bindery

open TransformState

/-! ### Names of parameters -/

section

variable {a : Argument} {i j : Nat}

theorem Argument.nameAt_of_eq (h : a.name = "") (i : Nat) : a.nameAt i = s!"p{i}" :=
  if_pos (String.isEmpty_iff.mpr h)

theorem Argument.nameAt_of_ne (h : a.name ≠ "") (i : Nat) : a.nameAt i = a.name :=
  if_neg fun hempty => h (String.isEmpty_iff.mp hempty)

theorem placeName_inj (h : s!"p{i}" = s!"p{j}") : i = j :=
  repr_inj ((String.append_right_inj "p").mp h)

theorem placeName_ne_empty (i : Nat) : s!"p{i}" ≠ "" := by
  intro h
  have hlength : ("p" ++ i.repr).length = "".length := congrArg String.length h
  rw [String.length_append] at hlength
  exact absurd hlength (by simp)

/-- Every parameter has a name in generated code. -/
theorem Argument.nameAt_ne_empty (a : Argument) (i : Nat) : a.nameAt i ≠ "" := by
  by_cases h : a.name = ""
  · rw [nameAt_of_eq h]
    exact placeName_ne_empty i
  · rwa [nameAt_of_ne h]

end

namespace Callable

variable {c : Callable}

/-- The names that parameters are declared with. -/
def givenNames (c : Callable) : List String := (c.args.map (·.name)).filter (· ≠ "")

/-- The names that parameters are declared with are different, and no parameter without a name gets
one of them. -/
structure NamesApart (c : Callable) : Prop where
  given : c.givenNames.Nodup
  madeUp : ∀ i, ∀ h : i < c.args.length, c.args[i].name = "" → s!"p{i}" ∉ c.givenNames

instance (c : Callable) : Decidable c.NamesApart :=
  decidable_of_iff (c.givenNames.Nodup ∧
    ∀ i, ∀ h : i < c.args.length, c.args[i].name = "" → s!"p{i}" ∉ c.givenNames)
    ⟨fun h => ⟨h.1, h.2⟩, fun h => ⟨h.given, h.madeUp⟩⟩

theorem mem_givenNames {n : String} :
    n ∈ c.givenNames ↔ n ≠ "" ∧ ∃ i, ∃ h : i < c.args.length, c.args[i].name = n := by
  simp only [givenNames, List.mem_filter, List.mem_map, List.mem_iff_getElem (l := c.args),
    decide_eq_true_eq]
  constructor
  · rintro ⟨⟨a, ⟨i, hi, rfl⟩, hname⟩, hn⟩
    exact ⟨hn, i, hi, hname⟩
  · rintro ⟨hn, i, hi, hname⟩
    exact ⟨⟨_, ⟨i, hi, rfl⟩, hname⟩, hn⟩

theorem givenNames_nodup_iff : c.givenNames.Nodup ↔
    ∀ i j, ∀ (hi : i < c.args.length) (hj : j < c.args.length), i < j →
      c.args[i].name ≠ "" → c.args[j].name ≠ "" → c.args[i].name ≠ c.args[j].name := by
  unfold givenNames List.Nodup
  rw [List.pairwise_filter, List.pairwise_map, List.pairwise_iff_getElem]
  simp only [decide_eq_true_eq]

theorem argNames_nodup_iff_ne : c.argNames.Nodup ↔
    ∀ i j, ∀ (hi : i < c.args.length) (hj : j < c.args.length), i < j →
      c.args[i].nameAt i ≠ c.args[j].nameAt j := by
  unfold argNames List.Nodup
  rw [List.pairwise_iff_getElem]
  simp only [List.length_mapIdx, List.getElem_mapIdx]

/-- **The parameters have different names exactly if the names are apart.** -/
theorem argNames_nodup_iff : c.argNames.Nodup ↔ c.NamesApart := by
  rw [argNames_nodup_iff_ne]
  constructor
  · intro h
    refine ⟨givenNames_nodup_iff.mpr fun i j hi hj hij hnamed hnamed' => ?_, ?_⟩
    · rw [← Argument.nameAt_of_ne hnamed i, ← Argument.nameAt_of_ne hnamed' j]
      exact h i j hi hj hij
    · intro i hi hempty hmem
      obtain ⟨hnamed, j, hj, hname⟩ := mem_givenNames.mp hmem
      rw [← hname] at hnamed
      have hsame : c.args[i].nameAt i = c.args[j].nameAt j := by
        rw [Argument.nameAt_of_eq hempty, Argument.nameAt_of_ne hnamed, hname]
      rcases Nat.lt_trichotomy i j with hij | rfl | hji
      · exact h i j hi hj hij hsame
      · exact hnamed hempty
      · exact h j i hj hi hji hsame.symm
  · intro h i j hi hj hij hsame
    by_cases hempty : c.args[i].name = ""
    · rw [Argument.nameAt_of_eq hempty] at hsame
      by_cases hempty' : c.args[j].name = ""
      · rw [Argument.nameAt_of_eq hempty'] at hsame
        exact absurd (placeName_inj hsame) hij.ne
      · rw [Argument.nameAt_of_ne hempty'] at hsame
        exact h.madeUp i hi hempty (mem_givenNames.mpr ⟨placeName_ne_empty i, j, hj, hsame.symm⟩)
    · rw [Argument.nameAt_of_ne hempty] at hsame
      by_cases hempty' : c.args[j].name = ""
      · rw [Argument.nameAt_of_eq hempty'] at hsame
        exact h.madeUp j hj hempty' (mem_givenNames.mpr ⟨placeName_ne_empty j, i, hi, hsame⟩)
      · rw [Argument.nameAt_of_ne hempty'] at hsame
        exact givenNames_nodup_iff.mp h.given i j hi hj hij hempty hempty' hsame

/-- A name like one that is made up is no harm if its place has another. -/
example : (ofReferences ["p1", "b", "", "p7"]).NamesApart := by decide

end Callable

/-! ### Lists of parameters -/

private theorem map_mapIdx {α β γ : Type} (f : Nat → α → β) (g : β → γ) (l : List α) :
    (l.mapIdx f).map g = l.mapIdx fun i a => g (f i a) := by
  refine List.ext_getElem (by simp) fun i _ _ => ?_
  rw [List.getElem_map, List.getElem_mapIdx, List.getElem_mapIdx]

theorem map_name_paramsOf (c : Callable) : (paramsOf c).map (·.name) = c.argNames :=
  map_mapIdx _ _ c.args

theorem DeclGraph.map_name_shimArgs (g : DeclGraph) (c : Callable) :
    (g.shimArgs c).map (·.name) = c.argNames :=
  map_mapIdx _ _ c.args

/-- Keywords have the names of the parameters, unless there are no keywords. -/
theorem map_name_keywordsOf {config : ExportConfig} (huse : config.useKeywords = true)
    {args : List Argument} (hargs : args ≠ []) (ofObject : Bool) :
    (keywordsOf config args ofObject).map (·.name) =
      (if ofObject then ["self"] else []) ++ args.mapIdx Argument.nameAt := by
  have hsome : (!config.useKeywords || args.isEmpty) = false := by simp [huse, hargs]
  rw [keywordsOf, hsome]
  cases ofObject <;> simp [map_mapIdx]

/-- The untransformed function has all parameters, passes them all, and so does its override. -/
theorem names_ofCallable (function : String) (c : Callable) :
    (TransformState.ofCallable function c).paramNames = c.argNames ∧
      (TransformState.ofCallable function c).callParams = c.argNames ∧
      (TransformState.ofCallable function c).overrideParams = c.argNames := by
  have hexposed : ((paramsOf c).mapIdx fun i p => (i, p)).map (·.2.name) = c.argNames := by
    rw [map_mapIdx, ← map_name_paramsOf]
    refine List.ext_getElem (by simp) fun i _ _ => ?_
    rw [List.getElem_mapIdx, List.getElem_map]
  rw [paramNames]
  cases hvoid : c.result.isVoid with
  | true =>
    rw [ofCallable_of_isVoid function hvoid]
    exact ⟨hexposed, map_name_paramsOf c, map_name_paramsOf c⟩
  | false =>
    rw [ofCallable_of_result function hvoid]
    exact ⟨hexposed, map_name_paramsOf c, map_name_paramsOf c⟩

/-- A list of names that generated code has for all parameters of the function. -/
inductive DeclGraph.NamesParams (g : DeclGraph) (c : Callable) : List String → Prop
  /-- The native parameters, from which transformers take the names of what they fill and read. -/
  | native {function specs t} (h : Transformation.ofSpecs function c specs = .ok t) :
      NamesParams g c (t.state.nativeArgs.map (·.name))
  /-- The parameters of the function that Python calls. -/
  | exposed (function) : NamesParams g c (TransformState.ofCallable function c).paramNames
  /-- What it passes to the native function. -/
  | passed (function) : NamesParams g c (TransformState.ofCallable function c).callParams
  /-- What an override passes to Python. -/
  | handedOn (function) : NamesParams g c (TransformState.ofCallable function c).overrideParams
  /-- The parameters of a stand-in or of a constructor of the wrapper class, and what these pass to
  the class. -/
  | standIn : NamesParams g c ((g.shimArgs c).map (·.name))
  | keywords {config : ExportConfig} (h : config.useKeywords = true) :
      NamesParams g c ((keywordsOf config c.args).map (·.name))

theorem DeclGraph.NamesParams.eq_argNames {g : DeclGraph} {c : Callable} {names : List String}
    (h : g.NamesParams c names) : names = c.argNames := by
  cases h with
  | native h => rw [(ordered_ofSpecs h).1, map_name_paramsOf]
  | exposed function => exact (names_ofCallable function c).1
  | passed function => exact (names_ofCallable function c).2.1
  | handedOn function => exact (names_ofCallable function c).2.2
  | standIn => exact g.map_name_shimArgs c
  | @keywords config huse =>
    cases hargs : c.args with
    | nil => simp [keywordsOf, Callable.argNames, hargs]
    | cons a args =>
      rw [map_name_keywordsOf huse (List.cons_ne_nil a args), Callable.argNames, hargs]
      rfl

/-- An override passes all parameters to the function of the class. -/
theorem Method.kind_of_standIn? {m : Method} {g : DeclGraph} {t : Transformation}
    {exposure : Exposure} {n : TransformedNode}
    (h : m.standIn? g t exposure = some (.transformed n)) :
    ∃ base isConst returnsVoid,
      n.kind = .override base (", ".intercalate m.callable.argNames) isConst returnsVoid := by
  cases exposure with
  | direct | hidden => cases h
  | shim kind => cases kind <;> cases h <;> exact ⟨_, _, _, rfl⟩

/-! ### Transformed functions -/

section

variable {function : String} {c : Callable} {specs : List TransformerSpec} {t : Transformation}

/-- The parameters that a transformed function has left have the names of native ones. -/
theorem ofSpecs_exposesNatives (h : Transformation.ofSpecs function c specs = .ok t) :
    t.state.ExposesNatives := by
  simp only [Transformation.ofSpecs, Except.bind_eq_ok, Except.pure_eq_ok] at h
  obtain ⟨t₀, hrun, rfl⟩ := h
  have hexposed := (run_of_applied (fun t => t.state.ExposesNatives)
    (Lockstep.ofCallable function c).exposed (fun h ha => ha.exposesNatives h) hrun).1
  have hsame := sameParams_freeze t₀.state
  unfold ExposesNatives
  rw [hsame.exposed, hsame.nativeArgs]
  exact hexposed

/-- If all parameters have different names, so have those that a transformed function has left. -/
theorem ofSpecs_paramNames_nodup (h : Transformation.ofSpecs function c specs = .ok t)
    (hnames : c.argNames.Nodup) : t.state.paramNames.Nodup := by
  obtain ⟨hargs, order, ho⟩ := ordered_ofSpecs h
  have hnative : (t.state.nativeArgs.map (·.name)).Nodup := by
    rw [hargs, map_name_paramsOf]
    exact hnames
  -- each parameter that is left is another native one
  have hsorted : t.state.exposed.Pairwise fun d e => d.1 < e.1 :=
    List.pairwise_map.mp ho.tracks.exposed
  refine List.pairwise_map.mpr (hsorted.imp_of_mem fun {d e} hd he hlt hname => ?_)
  obtain ⟨p, hp, hdp⟩ := ofSpecs_exposesNatives h d hd
  obtain ⟨q, hq, heq⟩ := ofSpecs_exposesNatives h e he
  have hsame : p.name = q.name := hdp.symm.trans (hname.trans heq)
  exact absurd (eq_of_name_eq hnative hp hq hsame) hlt.ne

/-- The parameters that a transformed function has left are keywords under their names. -/
theorem ofSpecs_map_nameAt_args (h : Transformation.ofSpecs function c specs = .ok t) :
    t.args.mapIdx Argument.nameAt = t.state.paramNames := by
  have hnamed : ∀ e ∈ t.state.exposed, e.2.name ≠ "" := by
    intro e he
    obtain ⟨p, hp, hname⟩ := ofSpecs_exposesNatives h e he
    rw [(ordered_ofSpecs h).1] at hp
    obtain ⟨i, hi, rfl⟩ := List.mem_mapIdx.mp (List.mem_of_getElem? hp)
    rw [hname]
    exact Argument.nameAt_ne_empty _ i
  rw [Transformation.args, exposedParams, List.map_map, paramNames]
  refine List.ext_getElem (by simp) fun i hi hi' => ?_
  rw [List.getElem_mapIdx, List.getElem_map, List.getElem_map]
  exact Argument.nameAt_of_ne (hnamed _ (List.getElem_mem _)) i

end

/-- **The parameters of a function have different names in each list of the generated code exactly
if their names are apart.**  An override passes one of these lists to the function of the class.  The
parameters that a transformed function has left have different names, and its keywords have the
same names, behind that of the object. -/
theorem DeclGraph.namesParams_nodup_iff (g : DeclGraph) (c : Callable) :
    (∀ names, g.NamesParams c names → (names.Nodup ↔ c.NamesApart)) ∧
    (∀ (m : Method) t exposure n, m.callable = c →
      m.standIn? g t exposure = some (.transformed n) →
        ∃ names base isConst returnsVoid, g.NamesParams c names ∧
          n.kind = .override base (", ".intercalate names) isConst returnsVoid) ∧
    (c.NamesApart → ∀ function specs t, Transformation.ofSpecs function c specs = .ok t →
      t.state.paramNames.Nodup ∧
        ∀ config : ExportConfig, config.useKeywords = true → t.args ≠ [] → ∀ ofObject,
          (keywordsOf config t.args ofObject).map (·.name) =
            (if ofObject then ["self"] else []) ++ t.state.paramNames) := by
  refine ⟨fun names h => ?_, fun m t exposure n hm h => ?_, fun hapart function specs t h => ?_⟩
  · rw [h.eq_argNames]
    exact Callable.argNames_nodup_iff
  · obtain ⟨base, isConst, returnsVoid, hkind⟩ := m.kind_of_standIn? h
    rw [hm, ← g.map_name_shimArgs c] at hkind
    exact ⟨_, base, isConst, returnsVoid, .standIn, hkind⟩
  · refine ⟨ofSpecs_paramNames_nodup h (Callable.argNames_nodup_iff.mpr hapart), ?_⟩
    intro config huse hargs ofObject
    rw [map_name_keywordsOf huse hargs, ofSpecs_map_nameAt_args h]

/-- A parameter without a name gets the name of the one in front of it, in all lists; and an
override reads what Python returns for the one as it reads what Python returns for the other. -/
theorem namesParams_clashing :
    (ofReferences ["p1", ""]).givenNames.Nodup ∧
      (∀ g names, DeclGraph.NamesParams g (ofReferences ["p1", ""]) names →
        names = ["p1", "p1"] ∧ ¬ names.Nodup) ∧
      ∃ t, Transformation.ofSpecs "::f" (ofReferences ["p1", ""]) [⟨.output, 1⟩, ⟨.output, 2⟩] =
          .ok t ∧ t.state.virtualResults = [.arg "p1", .arg "p1"] ∧
        t.state.pyResultExpr 1 = .ok "pyresult[0]" ∧
        t.state.pyResultExpr 2 = .ok "pyresult[0]" := by
  refine ⟨by decide, fun g names h => ?_, ?_⟩
  · have hnames : names = ["p1", "p1"] := h.eq_argNames
    exact ⟨hnames, by rw [hnames]; decide⟩
  · exact ⟨_, rfl, by decide +kernel, by decide +kernel, by decide +kernel⟩

end Bindery
