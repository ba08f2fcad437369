import Bindery.Proofs.Transform.OverrideOrder

/-!
# Edits that stay in range

The edits of a transformed function look things up by place: the native parameter in the index map
and among the expressions of the native call, and the place of an argument of the override in what
is passed to Python.  A removal closes a gap and an insertion opens one, so the places in the index
map have to be kept in step with the list that they point into.

## Main definitions

* `TransformState.InRange` — all places by which an edit looks something up exist.
* `Transformation.EditsInRange` — they do at each edit that transformers make.

## Main results

* `editsInRange` — **no edit of a transformer is out of range**, whatever the function and the
  transformers are.
-/

namespace Bindery

namespace TransformState

/-- All places by which an edit of the state looks something up exist. -/
structure InRange (s : TransformState) : Prop where
  /-- Each native parameter has an entry in the index map … -/
  places : s.argIndexMap.length = s.nativeArgs.length
  /-- … and an expression in the native call. -/
  callParams : s.callParams.length = s.nativeArgs.length
  /-- An argument of the override can be taken out at its place. -/
  removal : ∀ place, some place ∈ s.argIndexMap → place < s.overrideParams.length
  /-- Another one can be put in where a native parameter belongs. -/
  insertion : ∀ native, s.overridePlace native ≤ s.overrideParams.length

variable {s t : TransformState} {k : Nat}

/-- The place of an insertion is that of an argument, or behind all of them. -/
theorem overridePlace_le (h : ∀ place, some place ∈ s.argIndexMap →
    place < s.overrideParams.length) (native : Nat) :
    s.overridePlace native ≤ s.overrideParams.length := by
  unfold overridePlace
  cases hmin : ((s.argIndexMap.drop (native + 1)).filterMap id).min? with
  | none => exact Nat.le_refl _
  | some place =>
    obtain ⟨entry, hentry, rfl⟩ := List.mem_filterMap.mp (List.min?_mem hmin)
    exact Nat.le_of_lt (h place (List.mem_of_mem_drop hentry))

/-- The places of the override are those of its order. -/
theorem Tracks.inRange {u : Nat → Prop} {order : List Nat} {text : Nat → Option String}
    (h : Tracks u order text s) (hplaces : s.argIndexMap.length = s.nativeArgs.length) :
    s.InRange := by
  have hremoval : ∀ place, some place ∈ s.argIndexMap → place < s.overrideParams.length := by
    intro place hplace
    obtain ⟨i, hi⟩ := List.mem_iff_getElem?.mp hplace
    have horder := ((h.place i place).mp hi).1
    rw [h.length_overrideParams]
    exact (List.getElem?_eq_some_iff.mp horder).1
  exact ⟨hplaces, h.callParams, hremoval, overridePlace_le hremoval⟩

theorem SameParams.places (h : SameParams s t)
    (hs : s.argIndexMap.length = s.nativeArgs.length) :
    t.argIndexMap.length = t.nativeArgs.length := by
  rw [h.argIndexMap, h.nativeArgs, hs]

theorem places_removeArg (hs : s.argIndexMap.length = s.nativeArgs.length)
    (h : s.removeArg (k + 1) = .ok t) : t.argIndexMap.length = t.nativeArgs.length := by
  obtain ⟨place, -, rfl⟩ := removeArg_ok h
  rw [List.length_map, List.length_set, hs]

theorem places_insertArg {param : Param} {expr : String}
    (hs : s.argIndexMap.length = s.nativeArgs.length)
    (h : s.insertArg (k + 1) param expr = .ok t) :
    t.argIndexMap.length = t.nativeArgs.length := by
  rw [insertArg_ok h, List.length_map, hs]

end TransformState

open TransformState

/-- A transformer keeps one entry for each native parameter. -/
theorem TransformerSpec.Handles.places {spec : TransformerSpec} {s t : TransformState}
    {a : Transformer} (h : Handles spec s a t)
    (hs : s.argIndexMap.length = s.nativeArgs.length) :
    t.argIndexMap.length = t.nativeArgs.length := by
  obtain ⟨p, r, hp, hr, -, hfill⟩ := h
  obtain ⟨k, hk, -⟩ := arg_eq_ok.mp hp
  rw [hk] at hr
  have hplaces := places_removeArg hs hr
  cases hpassed : a.passed? p with
  | none =>
    rw [hpassed] at hfill
    exact hfill.places hplaces
  | some text =>
    rw [hpassed] at hfill
    obtain ⟨r', param, u, hr', hi, hu⟩ := hfill
    rw [hk] at hi
    exact hu.places (places_insertArg (hr'.places hplaces) hi)

namespace Transformation

variable {function : String} {c : Callable} {specs done : List TransformerSpec}
  {t : Transformation}

/-- The transformers find all places in range: at first, behind each of them, and when one has taken
a parameter out and is about to put another one in. -/
def EditsInRange (function : String) (c : Callable) (specs : List TransformerSpec) : Prop :=
  ∀ done t, done <+: specs →
    done.foldlM extend { state := TransformState.ofCallable function c } = .ok t →
      t.state.InRange ∧ ∀ k r, t.state.removeArg (k + 1) = .ok r → r.InRange

theorem places_of_foldlM
    (h : done.foldlM extend { state := TransformState.ofCallable function c } = .ok t) :
    t.state.argIndexMap.length = t.state.nativeArgs.length := by
  have hinit : (TransformState.ofCallable function c).argIndexMap.length =
      (TransformState.ofCallable function c).nativeArgs.length := by
    refine (sameParams_ofCallable function c).places ?_
    unfold TransformState.signatureOf
    rw [List.length_mapIdx]
  refine Except.foldlM_invariant
    (fun _ t => t.state.argIndexMap.length = t.state.nativeArgs.length)
    (fun _ spec t t' ht he => ?_) done [] _ t hinit h
  obtain ⟨⟨a, s⟩, ha, hpair⟩ := Except.bind_eq_ok.mp he
  cases hpair
  exact (TransformerSpec.apply_ok ha).2.places ht

/-- **No edit of a transformer is out of range.** -/
theorem editsInRange (function : String) (c : Callable) (specs : List TransformerSpec) :
    EditsInRange function c specs := by
  intro done t _ h
  have hplaces := places_of_foldlM h
  obtain ⟨-, order, ho⟩ := ordered_of_foldlM h
  refine ⟨ho.tracks.inRange hplaces, fun k r hr => ?_⟩
  obtain ⟨-, l, rest, -, htracks⟩ := ho.tracks.removeArg hr
  exact htracks.inRange (places_removeArg hplaces hr)

end Transformation

end Bindery
