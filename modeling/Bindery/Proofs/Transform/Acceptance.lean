import Bindery.Proofs.Transform.OverrideNames
import Bindery.Proofs.Transform.Ranges

/-!
# Which transformers a function accepts

No transformer asks which others there are.  One that deals with the argument of an earlier one
fails nevertheless: the earlier one took the place of the argument out of the index map, and no
later edit puts it back.  So a list of transformers is accepted if each of them can deal with its
argument and no two have the same, whatever their order.

## Main definitions

* `TransformerSpec.Suits` — a transformer can deal with arguments of a type.
* `TransformerSpec.Fits` — it can deal with the argument that it has.
* `Transformation.Acceptable c specs` — all of a list can, and no two have the same argument.

## Main results

* `exists_apply_iff` — a transformer succeeds if it fits and its argument has its place still.
* `exists_extend_iff` — that is so if no earlier transformer has dealt with the argument.
* `ofSpecs_accepted_iff` — **exactly the acceptable lists are accepted**, in any order.
-/

namespace Bindery

open TransformState

/-! ### Edits that succeed -/

namespace OverrideNamed

variable {c : Callable} {s : TransformState} {index : Nat}

theorem checkOpen (h : OverrideNamed c s) : s.checkOpen = .ok () := by
  rw [TransformState.checkOpen, h.not_frozen]
  rfl

theorem arg_eq_ok (h : OverrideNamed c s) {p : Param} :
    s.arg index = .ok p ↔ ∃ k, index = k + 1 ∧ (paramsOf c)[k]? = some p :=
  h.nativeArgs ▸ TransformState.arg_eq_ok

theorem exists_arg (h : OverrideNamed c s) (hi : 1 ≤ index ∧ index ≤ c.args.length) :
    ∃ p, s.arg index = .ok p := by
  obtain ⟨k, rfl⟩ : ∃ k, index = k + 1 := ⟨index - 1, by omega⟩
  have hk : k < (paramsOf c).length := length_paramsOf c ▸ hi.2
  exact ⟨_, h.arg_eq_ok.mpr ⟨k, rfl, List.getElem?_eq_getElem hk⟩⟩

/-- An edit succeeds if all that it needs is an argument in range. -/
private theorem exists_edit (h : OverrideNamed c s) (hi : 1 ≤ index ∧ index ≤ c.args.length)
    (f : Param → TransformState) :
    ∃ t, (do s.checkOpen; let p ← s.arg index; return f p : Except TransformError _) = .ok t := by
  obtain ⟨p, hp⟩ := h.exists_arg hi
  rw [h.checkOpen, hp]
  exact ⟨f p, rfl⟩

theorem exists_insertArg (h : OverrideNamed c s) (hi : 1 ≤ index ∧ index ≤ c.args.length)
    (param : Param) (expr : String) : ∃ t, s.insertArg index param expr = .ok t :=
  h.exists_edit hi _

theorem exists_setCallParam (h : OverrideNamed c s) (hi : 1 ≤ index ∧ index ≤ c.args.length)
    (expr : String) : ∃ t, s.setCallParam index expr = .ok t :=
  h.exists_edit hi _

theorem exists_addVirtualResult (h : OverrideNamed c s)
    (hi : 1 ≤ index ∧ index ≤ c.args.length) : ∃ t, s.addVirtualResult index = .ok t :=
  h.exists_edit hi _

theorem exists_addResult (h : OverrideNamed c s) (expr : String) (type : CppType) :
    ∃ t, s.addResult expr type = .ok t := by
  rw [addResult, h.checkOpen]
  exact ⟨_, rfl⟩

/-- An argument can be taken out as long as the index map has its place. -/
theorem exists_removeArg_iff (h : OverrideNamed c s) {k : Nat} (hk : k < c.args.length) :
    (∃ t, s.removeArg (k + 1) = .ok t) ↔ ∃ place, s.argIndexMap[k]? = some (some place) := by
  constructor
  · rintro ⟨t, ht⟩
    obtain ⟨place, hplace, -⟩ := removeArg_ok ht
    exact ⟨place, hplace⟩
  · rintro ⟨place, hplace⟩
    obtain ⟨p, hp⟩ := h.exists_arg ⟨Nat.succ_pos k, hk⟩
    rw [removeArg, h.checkOpen, hp, hplace]
    exact ⟨_, rfl⟩

end OverrideNamed

/-! ### Transformers that succeed -/

namespace TransformerSpec

/-- The sort of type that a transformer deals with: output, input and in/out arguments are pointers
or references, and arrays are pointers or arrays. -/
def Suits (spec : TransformerSpec) (type : CppType) : Prop :=
  match spec.kind with
  | .output | .input | .inout => type.isPointer ∨ type.isReference
  | .inputArray _ | .outputArray _ => type.isPointer ∨ type.isArray

instance (spec : TransformerSpec) (type : CppType) : Decidable (spec.Suits type) :=
  match spec with
  | ⟨.output, _⟩ | ⟨.input, _⟩ | ⟨.inout, _⟩ =>
    inferInstanceAs (Decidable (type.isPointer ∨ type.isReference))
  | ⟨.inputArray _, _⟩ | ⟨.outputArray _, _⟩ =>
    inferInstanceAs (Decidable (type.isPointer ∨ type.isArray))

/-- The function has the argument of the transformer, and it suits. -/
def Fits (c : Callable) (spec : TransformerSpec) : Prop :=
  1 ≤ spec.arg ∧ ∃ a ∈ c.args[spec.arg - 1]?, spec.Suits a.type

variable {c : Callable} {spec : TransformerSpec} {s : TransformState} {p : Param} {size : Nat}

/-- An argument that is looked up and then tested. -/
private theorem tested_eq_ok {index : Nat} (test : Param → Bool) (fail : Param → TransformError) :
    (do let q ← s.arg index; if test q then return q else throw (fail q) :
      Except TransformError Param) = .ok p ↔ s.arg index = .ok p ∧ test p := by
  rw [Except.bind_eq_ok]
  constructor
  · rintro ⟨q, hq, h⟩
    split at h
    · next htest =>
      obtain rfl := Except.pure_eq_ok.mp h
      exact ⟨hq, htest⟩
    · cases h
  · rintro ⟨hp, htest⟩
    exact ⟨p, hp, if_pos htest⟩

theorem indirectArg_eq_ok : spec.indirectArg s = .ok p ↔
    s.arg spec.arg = .ok p ∧ (p.type.isPointer ∨ p.type.isReference) := by
  rw [← Bool.or_eq_true_iff]
  exact tested_eq_ok (fun q => q.type.isPointer || q.type.isReference) _

theorem arrayArg_eq_ok : spec.arrayArg s = .ok p ↔
    s.arg spec.arg = .ok p ∧ (p.type.isPointer ∨ p.type.isArray) := by
  rw [← Bool.or_eq_true_iff]
  exact tested_eq_ok (fun q => q.type.isPointer || q.type.isArray) _

/-- What every transformer needs in order to succeed: its argument is in range, and can be taken
out. -/
structure Ready (c : Callable) (spec : TransformerSpec) (s : TransformState) : Prop where
  named : OverrideNamed c s
  inRange : 1 ≤ spec.arg ∧ spec.arg ≤ c.args.length
  removable : ∃ r, s.removeArg spec.arg = .ok r

theorem Ready.exists_passByValue (h : Ready c spec s) (p : Param) :
    ∃ t, passByValue spec.arg p s = .ok t := by
  refine Except.exists_bind h.removable fun r hr => ?_
  have hr := h.named.edit (.removeArg hr)
  refine Except.exists_bind (hr.exists_insertArg h.inRange _ _) fun u hu => ?_
  exact (hr.edit (.insertArg hu)).exists_setCallParam h.inRange _

theorem Ready.exists_applyOutput (h : Ready c spec s) (hp : spec.indirectArg s = .ok p) :
    ∃ x, spec.applyOutput s = .ok x := by
  refine Except.exists_bind ⟨p, hp⟩ fun p _ => Except.exists_bind h.removable fun r hr => ?_
  have hr := (h.named.edit (.removeArg hr)).edit
    (.declareExposed r p.name p.type.valueType none none)
  refine Except.exists_bind (hr.exists_setCallParam h.inRange _) fun t ht => ?_
  have ht := hr.edit (.setCallParam ht)
  refine Except.exists_bind (ht.exists_addResult _ _) fun u hu => ?_
  have hu := ht.edit (.addResult hu)
  exact Except.exists_bind (hu.exists_addVirtualResult h.inRange) fun _ _ => ⟨_, rfl⟩

theorem Ready.exists_applyInput (h : Ready c spec s) (hp : spec.indirectArg s = .ok p) :
    ∃ x, spec.applyInput s = .ok x :=
  Except.exists_bind ⟨p, hp⟩ fun p _ =>
    Except.exists_bind (h.exists_passByValue p) fun _ _ => ⟨_, rfl⟩

theorem Ready.exists_applyInout (h : Ready c spec s) (hp : spec.indirectArg s = .ok p) :
    ∃ x, spec.applyInout s = .ok x := by
  refine Except.exists_bind ⟨p, hp⟩ fun p _ => ?_
  refine Except.exists_bind (h.exists_passByValue p) fun t ht => ?_
  have ht := h.named.edits (passByValue_edits ht)
  refine Except.exists_bind (ht.exists_addResult _ _) fun u hu => ?_
  have hu := ht.edit (.addResult hu)
  exact Except.exists_bind (hu.exists_addVirtualResult h.inRange) fun _ _ => ⟨_, rfl⟩

theorem Ready.exists_applyInputArray (h : Ready c spec s) (hp : spec.arrayArg s = .ok p) :
    ∃ x, spec.applyInputArray size s = .ok x := by
  refine Except.exists_bind ⟨p, hp⟩ fun p _ => Except.exists_bind h.removable fun r hr => ?_
  have hr := (h.named.edit (.removeArg hr)).edit (.declareOverride r p.name listType)
  refine Except.exists_bind (hr.exists_insertArg h.inRange _ _) fun t ht => ?_
  have ht := (hr.edit (.insertArg ht)).edit
    (.declareExposed t ("c_" ++ p.name) p.type.valueType (some size) none)
  exact Except.exists_bind (ht.exists_setCallParam h.inRange _) fun _ _ => ⟨_, rfl⟩

theorem Ready.exists_applyOutputArray (h : Ready c spec s) (hp : spec.arrayArg s = .ok p) :
    ∃ x, spec.applyOutputArray size s = .ok x := by
  refine Except.exists_bind ⟨p, hp⟩ fun p _ => Except.exists_bind h.removable fun r hr => ?_
  have hr := ((h.named.edit (.removeArg hr)).edit
    (.declareExposed r ("c_" ++ p.name) p.type.valueType (some size) none)).edit
    (.declareExposed _ p.name listType none none)
  refine Except.exists_bind (hr.exists_setCallParam h.inRange _) fun t ht => ?_
  have ht := hr.edit (.setCallParam ht)
  refine Except.exists_bind (ht.exists_addResult _ _) fun u hu => ?_
  have hu := (ht.edit (.addResult hu)).edit (.declareOverride u p.name objectType)
  exact Except.exists_bind (hu.exists_addVirtualResult h.inRange) fun _ _ => ⟨_, rfl⟩

/-- A transformer that succeeds has found an argument that suits it. -/
theorem suits_of_apply {x : Transformer × TransformState} (h : spec.apply s = .ok x) :
    ∃ p, s.arg spec.arg = .ok p ∧ spec.Suits p.type := by
  unfold Suits
  cases hk : spec.kind <;>
    rw [apply, hk, Except.bind_eq_ok] at h <;>
    obtain ⟨_, h, -⟩ := h <;>
    obtain ⟨p, hp, -⟩ := Except.bind_eq_ok.mp h
  · exact ⟨p, indirectArg_eq_ok.mp hp⟩
  · exact ⟨p, indirectArg_eq_ok.mp hp⟩
  · exact ⟨p, indirectArg_eq_ok.mp hp⟩
  · exact ⟨p, arrayArg_eq_ok.mp hp⟩
  · exact ⟨p, arrayArg_eq_ok.mp hp⟩

theorem Ready.exists_apply (h : Ready c spec s) (hp : s.arg spec.arg = .ok p)
    (hsuits : spec.Suits p.type) : ∃ x, spec.apply s = .ok x := by
  unfold Suits at hsuits
  unfold apply
  cases hk : spec.kind <;> rw [hk] at hsuits
  · exact Except.exists_bind (h.exists_applyOutput (indirectArg_eq_ok.mpr ⟨hp, hsuits⟩))
      fun _ _ => ⟨_, rfl⟩
  · exact Except.exists_bind (h.exists_applyInput (indirectArg_eq_ok.mpr ⟨hp, hsuits⟩))
      fun _ _ => ⟨_, rfl⟩
  · exact Except.exists_bind (h.exists_applyInout (indirectArg_eq_ok.mpr ⟨hp, hsuits⟩))
      fun _ _ => ⟨_, rfl⟩
  · exact Except.exists_bind (h.exists_applyInputArray (arrayArg_eq_ok.mpr ⟨hp, hsuits⟩))
      fun _ _ => ⟨_, rfl⟩
  · exact Except.exists_bind (h.exists_applyOutputArray (arrayArg_eq_ok.mpr ⟨hp, hsuits⟩))
      fun _ _ => ⟨_, rfl⟩

/-- **A transformer succeeds if it fits and its argument has its place still.** -/
theorem exists_apply_iff (h : OverrideNamed c s) : (∃ x, spec.apply s = .ok x) ↔
    spec.Fits c ∧ ∃ place, s.argIndexMap[spec.arg - 1]? = some (some place) := by
  have hfits : (∃ p, s.arg spec.arg = .ok p ∧ spec.Suits p.type) ↔ spec.Fits c := by
    constructor
    · rintro ⟨p, hp, hsuits⟩
      obtain ⟨k, hk, hget⟩ := h.arg_eq_ok.mp hp
      obtain ⟨a, ha, rfl⟩ := Option.map_eq_some_iff.mp (List.getElem?_mapIdx.symm.trans hget)
      refine ⟨by omega, a, ?_, hsuits⟩
      rwa [hk]
    · rintro ⟨hpos, a, ha, hsuits⟩
      have hget : (paramsOf c)[spec.arg - 1]? = some _ :=
        List.getElem?_mapIdx.trans (congrArg (Option.map _) ha)
      exact ⟨_, h.arg_eq_ok.mpr ⟨spec.arg - 1, by omega, hget⟩, hsuits⟩
  rw [← hfits]
  constructor
  · rintro ⟨⟨a, t⟩, hx⟩
    obtain ⟨-, p, r, hp, hr, -⟩ := apply_ok hx
    obtain ⟨k, hk, -⟩ := h.arg_eq_ok.mp hp
    rw [hk] at hr ⊢
    obtain ⟨place, hplace, -⟩ := removeArg_ok hr
    exact ⟨hk ▸ suits_of_apply hx, place, hplace⟩
  · rintro ⟨⟨p, hp, hsuits⟩, hplace⟩
    obtain ⟨k, hk, hget⟩ := h.arg_eq_ok.mp hp
    have hlt : k < c.args.length := length_paramsOf c ▸ (List.getElem?_eq_some_iff.mp hget).1
    refine Ready.exists_apply ⟨h, by omega, ?_⟩ hp hsuits
    rw [hk] at hplace ⊢
    exact (h.exists_removeArg_iff hlt).mpr hplace

end TransformerSpec

/-! ### Lists of transformers -/

/-- An argument has its place exactly if no transformer has dealt with it. -/
theorem Ordered.exists_place_iff {done : List TransformerSpec} {order : List Nat}
    {t : Transformation} (h : Ordered done order t) {k : Nat}
    (hk : k < t.state.nativeArgs.length) :
    (∃ place, t.state.argIndexMap[k]? = some (some place)) ↔ IsUntouched done k := by
  simp only [h.tracks.place, exists_and_right]
  refine and_iff_right_of_imp fun hu => ?_
  exact List.mem_iff_getElem?.mp (h.tracks.untouched k hk hu)

/-- **One more transformer is accepted if it fits and no earlier one has its argument.** -/
theorem exists_extend_iff {c : Callable} {done : List TransformerSpec} {order : List Nat}
    {t : Transformation} {spec : TransformerSpec} (ho : Ordered done order t)
    (hn : OverrideNamed c t.state) :
    (∃ t', t.extend spec = .ok t') ↔ spec.Fits c ∧ ∀ e ∈ done, e.arg ≠ spec.arg := by
  calc (∃ t', t.extend spec = .ok t')
      ↔ ∃ x, spec.apply t.state = .ok x :=
        ⟨fun ⟨_, h⟩ => let ⟨x, hx, _⟩ := Except.bind_eq_ok.mp h; ⟨x, hx⟩,
          fun h => Except.exists_bind h fun _ _ => ⟨_, rfl⟩⟩
    _ ↔ spec.Fits c ∧ ∃ place, t.state.argIndexMap[spec.arg - 1]? = some (some place) :=
        TransformerSpec.exists_apply_iff hn
    _ ↔ spec.Fits c ∧ ∀ e ∈ done, e.arg ≠ spec.arg := by
        -- only of an argument in range does the index map say anything
        refine and_congr_right fun ⟨hpos, a, ha, _⟩ => ?_
        have hk : spec.arg - 1 < t.state.nativeArgs.length := by
          rw [hn.nativeArgs, length_paramsOf]
          exact (List.getElem?_eq_some_iff.mp ha).1
        rw [ho.exists_place_iff hk, IsUntouched, Nat.sub_add_cancel hpos]

namespace Transformation

/-- Each transformer of the list has an argument of the function that suits it, and no two have the
same. -/
structure Acceptable (c : Callable) (specs : List TransformerSpec) : Prop where
  inRange : ∀ spec ∈ specs, 1 ≤ spec.arg ∧ spec.arg ≤ c.args.length
  suits : ∀ spec ∈ specs, ∀ a ∈ c.args[spec.arg - 1]?, spec.Suits a.type
  apart : specs.Pairwise fun d e => d.arg ≠ e.arg

variable {function : String} {c : Callable} {specs specs' : List TransformerSpec}

theorem acceptable_iff :
    Acceptable c specs ↔
      (∀ spec ∈ specs, spec.Fits c) ∧ specs.Pairwise fun d e => d.arg ≠ e.arg := by
  constructor
  · intro h
    refine ⟨fun spec hspec => ?_, h.apart⟩
    obtain ⟨hpos, hle⟩ := h.inRange spec hspec
    have hget := List.getElem?_eq_getElem (l := c.args) (i := spec.arg - 1) (by omega)
    exact ⟨hpos, _, hget, h.suits spec hspec _ hget⟩
  · rintro ⟨hfits, hapart⟩
    refine ⟨fun spec hspec => ?_, fun spec hspec a ha => ?_, hapart⟩
    · obtain ⟨hpos, a, ha, -⟩ := hfits spec hspec
      have := (List.getElem?_eq_some_iff.mp ha).1
      omega
    · obtain ⟨-, b, hb, hsuits⟩ := hfits spec hspec
      obtain rfl := Option.mem_unique ha hb
      exact hsuits

theorem Acceptable.perm (h : Acceptable c specs) (hperm : specs'.Perm specs) :
    Acceptable c specs' where
  inRange spec hspec := h.inRange spec (hperm.subset hspec)
  suits spec hspec := h.suits spec (hperm.subset hspec)
  apart := (hperm.pairwise_iff fun hde => hde.symm).mpr h.apart

/-- A run succeeds if all transformers fit and have arguments of their own, which no transformer
before the run has either. -/
theorem exists_run_iff {specs done : List TransformerSpec} {order : List Nat} {t : Transformation}
    (ho : Ordered done order t) (hn : OverrideNamed c t.state) :
    (∃ t', specs.foldlM extend t = .ok t') ↔
      (∀ spec ∈ specs, spec.Fits c ∧ ∀ e ∈ done, e.arg ≠ spec.arg) ∧
        specs.Pairwise fun d e => d.arg ≠ e.arg := by
  induction specs generalizing done order t with
  | nil => exact iff_of_true ⟨t, rfl⟩ ⟨nofun, .nil⟩
  | cons spec specs ih =>
    -- the run goes on behind a state that has the transformer among those done
    have hstep : ∀ t', t.extend spec = .ok t' → ((∃ u, specs.foldlM extend t' = .ok u) ↔
        (∀ e ∈ specs, e.Fits c ∧ ∀ d ∈ done ++ [spec], d.arg ≠ e.arg) ∧
          specs.Pairwise fun d e => d.arg ≠ e.arg) := by
      intro t' ht'
      obtain ⟨order', ho'⟩ := ho.extend ht'
      obtain ⟨⟨a, s⟩, ha, hpair⟩ := Except.bind_eq_ok.mp ht'
      cases hpair
      exact ih ho' (hn.edits (TransformerSpec.apply_edits ha))
    calc (∃ u, (spec :: specs).foldlM extend t = .ok u)
        ↔ ∃ t', t.extend spec = .ok t' ∧ ∃ u, specs.foldlM extend t' = .ok u := by
          simp only [List.foldlM_cons, Except.bind_eq_ok]
          exact ⟨fun ⟨u, t', ht', hu⟩ => ⟨t', ht', u, hu⟩, fun ⟨t', ht', u, hu⟩ => ⟨u, t', ht', hu⟩⟩
      _ ↔ (∃ t', t.extend spec = .ok t') ∧
            (∀ e ∈ specs, e.Fits c ∧ ∀ d ∈ done ++ [spec], d.arg ≠ e.arg) ∧
              specs.Pairwise fun d e => d.arg ≠ e.arg := by
          rw [← exists_and_right]
          exact exists_congr fun t' => and_congr_right fun ht' => hstep t' ht'
      _ ↔ _ := by
          simp only [exists_extend_iff ho hn, List.forall_mem_cons, List.pairwise_cons,
            List.forall_mem_append, List.mem_singleton, forall_eq]
          grind

/-- **Exactly the acceptable lists of transformers are accepted**, so that their order does not
matter.  No edit is out of range on the way. -/
theorem ofSpecs_accepted_iff (function : String) (c : Callable) (specs : List TransformerSpec) :
    ((∃ t, ofSpecs function c specs = .ok t) ↔ Acceptable c specs) ∧
      (∀ specs', specs'.Perm specs →
        ((∃ t, ofSpecs function c specs' = .ok t) ↔ ∃ t, ofSpecs function c specs = .ok t)) ∧
      EditsInRange function c specs := by
  have haccepted : ∀ specs, (∃ t, ofSpecs function c specs = .ok t) ↔ Acceptable c specs := by
    intro specs
    calc (∃ t, ofSpecs function c specs = .ok t)
        ↔ ∃ t, specs.foldlM extend { state := TransformState.ofCallable function c } = .ok t :=
          ⟨fun ⟨_, h⟩ => let ⟨t, ht, _⟩ := Except.bind_eq_ok.mp h; ⟨t, ht⟩,
            fun h => Except.exists_bind h fun _ _ => ⟨_, rfl⟩⟩
      _ ↔ (∀ spec ∈ specs, spec.Fits c) ∧ specs.Pairwise fun d e => d.arg ≠ e.arg := by
          rw [exists_run_iff (ordered_ofCallable function c) (.ofCallable function c)]
          simp
      _ ↔ Acceptable c specs := acceptable_iff.symm
  refine ⟨haccepted specs, fun specs' hperm => ?_, editsInRange function c specs⟩
  rw [haccepted, haccepted]
  exact ⟨fun h => h.perm hperm.symm, fun h => h.perm hperm⟩

/-- Two references are taken by value or returned in either order, but not both in one. -/
theorem ofSpecs_accepted_iff_references :
    (∃ t, ofSpecs "::f" (ofReferences ["a", "b"]) [⟨.input, 2⟩, ⟨.output, 1⟩] = .ok t) ∧
      (∃ t, ofSpecs "::f" (ofReferences ["a", "b"]) [⟨.output, 1⟩, ⟨.input, 2⟩] = .ok t) ∧
      ¬ ∃ t, ofSpecs "::f" (ofReferences ["a", "b"]) [⟨.input, 2⟩, ⟨.output, 2⟩] = .ok t := by
  have hpair := ofSpecs_accepted_iff "::f" (ofReferences ["a", "b"]) [⟨.input, 2⟩, ⟨.output, 1⟩]
  have hboth := ofSpecs_accepted_iff "::f" (ofReferences ["a", "b"]) [⟨.input, 2⟩, ⟨.output, 2⟩]
  have haccepted := hpair.1.mpr ⟨by decide, by decide, by decide⟩
  refine ⟨haccepted, (hpair.2.1 _ (List.Perm.swap ..)).mpr haccepted, fun h => ?_⟩
  exact absurd (hboth.1.mp h).apart (by decide)

end Transformation

end Bindery
