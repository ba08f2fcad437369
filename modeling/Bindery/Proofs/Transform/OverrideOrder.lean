import Bindery.Proofs.Transform.Places
import Mathlib.Data.List.Perm.Basic

/-!
# When an override passes its arguments in order

Python sees the parameters of the exposed function in the order of the native ones.  An override
passes the same arguments, but a parameter that is put in again is placed in front of the next
*untouched* parameter: later ones that were put in before it are passed over.  The two orders
agree exactly when this never happens.

## Main definitions

* `TransformerSpec.Yields` — a transformer puts its parameter in front of the later ones that were
  put in before it.
* `KeepOrder` — each transformer of a list does.
* `Transformation.passed?` — what the override passes for a native parameter.
* `Ordered done order t` — `order` is the order of the override behind the transformers `done`.

## Main results

* `Ordered.extend` — one more transformer takes its parameter out, and may put it back.
* `ofSpecs_aligned` — **the two parameter lists agree exactly when the transformers keep the
  order.**
-/

namespace Bindery

/-! ### Lists of transformers that keep the order -/

/-- No transformer of the list deals with the native parameter. -/
def IsUntouched (done : List TransformerSpec) (native : Nat) : Prop :=
  ∀ e ∈ done, e.arg ≠ native + 1

/-- Between the parameter of the transformer and any later one that a transformer of the list has
put in again, there is a parameter that no transformer of the list has dealt with. -/
def TransformerSpec.Yields (done : List TransformerSpec) (spec : TransformerSpec) : Prop :=
  spec.replaces = true → ∀ e ∈ done, e.replaces = true → spec.arg < e.arg →
    ∃ k < e.arg, spec.arg < k ∧ ∀ d ∈ done, d.arg ≠ k

/-- The transformers of a list, applied behind those of another, keep the order of parameters. -/
def KeepOrder (done : List TransformerSpec) : List TransformerSpec → Prop
  | [] => True
  | spec :: rest => spec.Yields done ∧ KeepOrder (done ++ [spec]) rest

instance (done : List TransformerSpec) (spec : TransformerSpec) : Decidable (spec.Yields done) :=
  inferInstanceAs (Decidable (_ → ∀ e ∈ done, _ → _ → ∃ k < e.arg, _ ∧ ∀ d ∈ done, d.arg ≠ k))

instance decidableKeepOrder : ∀ done specs : List TransformerSpec, Decidable (KeepOrder done specs)
  | _, [] => isTrue trivial
  | done, spec :: rest =>
    have := decidableKeepOrder (done ++ [spec]) rest
    inferInstanceAs (Decidable (spec.Yields done ∧ KeepOrder (done ++ [spec]) rest))

theorem keepOrder_append_singleton {spec : TransformerSpec} :
    ∀ {specs done : List TransformerSpec},
      KeepOrder done (specs ++ [spec]) ↔ KeepOrder done specs ∧ spec.Yields (done ++ specs) := by
  intro specs
  induction specs with
  | nil => intro done; simp [KeepOrder]
  | cons a specs ih =>
    intro done
    rw [List.cons_append, KeepOrder, KeepOrder, ih, List.append_assoc, List.singleton_append,
      and_assoc]

theorem isUntouched_append_singleton {done : List TransformerSpec} {spec : TransformerSpec}
    {k i : Nat} (hk : spec.arg = k + 1) :
    IsUntouched (done ++ [spec]) i ↔ IsUntouched done i ∧ i ≠ k := by
  unfold IsUntouched
  constructor
  · intro h
    refine ⟨fun e he => h e (List.mem_append_left _ he), fun hi => ?_⟩
    exact h spec (List.mem_append_right _ List.mem_cons_self) (by omega)
  · rintro ⟨h, hi⟩ e he
    rcases List.mem_append.mp he with he | he
    · exact h e he
    · rw [List.mem_singleton] at he
      rw [he]
      omega

/-- What the override passes to Python for a native parameter: its name if no transformer deals
with it. -/
def Transformation.passed? (t : Transformation) (native : Nat) : Option String :=
  t.state.nativeArgs[native]?.bind fun p =>
    match t.transformers.find? (·.spec.arg = native + 1) with
    | none => some p.name
    | some a => a.passed? p

/-! ### The order behind a list of transformers -/

/-- `order` is the order of the override behind the transformers `done`. -/
structure Ordered (done : List TransformerSpec) (order : List Nat) (t : Transformation) :
    Prop where
  specs : t.transformers.map (·.spec) = done
  tracks : TransformState.Tracks (IsUntouched done) order t.passed? t.state
  present : ∀ i ∈ order, IsUntouched done i ∨ ∃ e ∈ done, e.replaces = true ∧ e.arg = i + 1
  replaced : ∀ e ∈ done, e.replaces = true → ∃ i ∈ order, e.arg = i + 1
  sorted : order.Pairwise (· < ·) ↔ KeepOrder [] done

/-- Putting `k` between `l` and `r` keeps an ascending list ascending when nothing in `l` is
greater. -/
private theorem pairwise_middle_iff {k : Nat} {l r : List Nat} (hr : ∀ i ∈ r.head?, k < i) :
    (l ++ k :: r).Pairwise (· < ·) ↔ (l ++ r).Pairwise (· < ·) ∧ ∀ j ∈ l, j < k := by
  simp only [List.pairwise_append, List.pairwise_cons, List.mem_cons, forall_eq_or_imp]
  constructor
  · rintro ⟨hl, ⟨-, hr'⟩, hlr⟩
    exact ⟨⟨hl, hr', fun a ha => (hlr a ha).2⟩, fun j hj => (hlr j hj).1⟩
  · rintro ⟨⟨hl, hr', hlr⟩, hk⟩
    refine ⟨hl, ⟨?_, hr'⟩, fun a ha => ⟨hk a ha, hlr a ha⟩⟩
    intro j hj
    cases r with
    | nil => cases hj
    | cons i r =>
      have hki : k < i := hr i rfl
      rcases List.mem_cons.mp hj with rfl | hj
      · exact hki
      · exact Nat.lt_trans hki ((List.pairwise_cons.mp hr').1 j hj)

variable {done : List TransformerSpec} {order : List Nat} {t t' : Transformation}
  {spec : TransformerSpec} {k : Nat}

/-- In an ascending order a parameter is put in front of all later ones exactly when it yields. -/
theorem Ordered.yields_iff {l r : List Nat} {present : List Nat} (h : Ordered done present t)
    (hpresent : ∀ i, i ∈ present ↔ i = k ∨ i ∈ l ++ r) (hk : spec.arg = k + 1) (hnew : k ∉ l ++ r)
    (hrep : spec.replaces = true) (hl : ∀ i ∈ l, IsUntouched done i → i < k)
    (hr : ∀ i ∈ r.head?, IsUntouched done i ∧ k < i) (hsorted : (l ++ r).Pairwise (· < ·)) :
    (∀ j ∈ l, j < k) ↔ spec.Yields done := by
  constructor
  · intro hlt _ e he herep hke
    -- the parameter of `e` stands behind the first parameter of `r`, which is untouched
    obtain ⟨j, hj, hej⟩ := h.replaced e he herep
    have hj : j ∈ l ++ r := ((hpresent j).mp hj).resolve_left (by omega)
    cases r with
    | nil =>
      rw [List.append_nil] at hj
      have := hlt j hj
      omega
    | cons i r =>
      obtain ⟨hi, hki⟩ := hr i rfl
      have hne : i ≠ j := fun hij => hi e he (hij ▸ hej)
      refine ⟨i + 1, ?_, by omega, fun d hd => hi d hd⟩
      rcases List.mem_append.mp hj with hj | hj
      · have := hlt j hj
        omega
      · rcases List.mem_cons.mp hj with rfl | hj
        · exact absurd rfl hne
        · have := (List.pairwise_cons.mp (List.pairwise_append.mp hsorted).2.1).1 j hj
          omega
  · intro hy j hj
    by_contra hge
    have hjk : j ≠ k := fun hjk => hnew (List.mem_append_left _ (hjk ▸ hj))
    have hjlr : j ∈ l ++ r := List.mem_append_left _ hj
    rcases h.present j ((hpresent j).mpr (Or.inr hjlr)) with hu | ⟨e, he, herep, hej⟩
    · have := hl j hj hu
      omega
    · -- an untouched parameter between the two would stand in front of the place for `k`
      obtain ⟨m, hme, hkm, hm⟩ := hy hrep e he herep (by omega)
      obtain ⟨i, rfl⟩ : ∃ i, m = i + 1 := ⟨m - 1, by omega⟩
      have hlen : i < t.state.nativeArgs.length := by
        have := h.tracks.lt j ((hpresent j).mpr (Or.inr hjlr))
        omega
      have hi : i ∈ l ++ r :=
        ((hpresent i).mp (h.tracks.untouched i hlen hm)).resolve_left (by omega)
      rcases List.mem_append.mp hi with hi | hi
      · have := hl i hi hm
        omega
      · have := (List.pairwise_append.mp hsorted).2.2 j hj i hi
        omega

/-- An untouched parameter stands where it belongs, so that taking it out changes nothing. -/
private theorem pairwise_remove_iff {u : Nat → Prop} {k : Nat} {l r : List Nat} (hk : u k)
    (h : (l ++ k :: r).Pairwise fun i j => u i ∨ u j → i < j) :
    (l ++ k :: r).Pairwise (· < ·) ↔ (l ++ r).Pairwise (· < ·) := by
  simp only [List.pairwise_append, List.pairwise_cons, List.mem_cons, forall_eq_or_imp] at h ⊢
  obtain ⟨-, ⟨hkr, -⟩, hlk⟩ := h
  constructor
  · rintro ⟨hl, ⟨-, hr⟩, hlr⟩
    exact ⟨hl, hr, fun a ha => (hlr a ha).2⟩
  · rintro ⟨hl, hr, hlr⟩
    exact ⟨hl, ⟨fun j hj => hkr j hj (Or.inl hk), hr⟩,
      fun a ha => ⟨(hlk a ha).1 (Or.inr hk), hlr a ha⟩⟩

/-- A transformer settles what is passed for its own parameter. -/
theorem passed?_extend {a : Transformer} {p : Param} (hk : a.spec.arg = k + 1)
    (hp : t.state.nativeArgs[k]? = some p) (hu : IsUntouched (t.transformers.map (·.spec)) k)
    {s : TransformState} (hs : s.nativeArgs = t.state.nativeArgs) :
    (Transformation.mk s (t.transformers ++ [a])).passed? =
      Function.update t.passed? k (a.passed? p) := by
  funext i
  simp only [Transformation.passed?, hs, List.find?_append]
  by_cases hi : i = k
  · subst hi
    have hnone : t.transformers.find? (·.spec.arg = i + 1) = none := by
      rw [List.find?_eq_none]
      intro b hb
      simpa using hu b.spec (List.mem_map_of_mem hb)
    simp [hp, hnone, hk]
  · have hne : ¬ a.spec.arg = i + 1 := by omega
    rw [Function.update_of_ne hi, Transformation.passed?]
    cases hf : t.transformers.find? (·.spec.arg = i + 1) <;> simp [hne]

theorem nativeArgs_extend (he : t.extend spec = .ok t') :
    t'.state.nativeArgs = t.state.nativeArgs := by
  simp only [Transformation.extend, Except.bind_eq_ok, Except.pure_eq_ok] at he
  obtain ⟨⟨a, s⟩, ha, rfl⟩ := he
  exact (TransformerSpec.apply_ok ha).2.nativeArgs

/-- `rest` is the order without the parameter `k` of `spec`, which no transformer of `done` deals
with. -/
structure Removed (done : List TransformerSpec) (spec : TransformerSpec) (k : Nat)
    (order rest : List Nat) : Prop where
  arg : spec.arg = k + 1
  new : k ∉ rest
  mem : ∀ i, i ∈ order ↔ i = k ∨ i ∈ rest
  present : ∀ i ∈ rest, IsUntouched (done ++ [spec]) i ∨
    ∃ e ∈ done ++ [spec], e.replaces = true ∧ e.arg = i + 1
  replaced : ∀ e ∈ done, e.replaces = true → ∃ i ∈ rest, e.arg = i + 1
  sorted : rest.Pairwise (· < ·) ↔ KeepOrder [] done

/-- A transformer takes its parameter out of the order. -/
theorem Ordered.removeArg (h : Ordered done order t) {s : TransformState} (hk : spec.arg = k + 1)
    (hs : t.state.removeArg (k + 1) = .ok s) :
    IsUntouched done k ∧ ∃ rest, Removed done spec k order rest ∧
      TransformState.Tracks (IsUntouched (done ++ [spec])) rest t.passed? s := by
  obtain ⟨hu, l, r, rfl, htracks⟩ := h.tracks.removeArg hs
  have huntouched : (fun i => IsUntouched done i ∧ i ≠ k) = IsUntouched (done ++ [spec]) :=
    funext fun i => propext (isUntouched_append_singleton hk).symm
  rw [huntouched] at htracks
  have hnew : k ∉ l ++ r := (List.nodup_cons.mp (List.nodup_middle.mp h.tracks.nodup)).1
  have hmem : ∀ i, i ∈ l ++ k :: r ↔ i = k ∨ i ∈ l ++ r := fun i =>
    List.perm_middle.mem_iff.trans List.mem_cons
  refine ⟨hu, l ++ r, ⟨hk, hnew, hmem, ?_, ?_, ?_⟩, htracks⟩
  · -- the parameters that were there before are still there for the same reason
    intro i hi
    rcases h.present i ((hmem i).mpr (Or.inr hi)) with hui | ⟨e, he, hrep⟩
    · exact Or.inl ((isUntouched_append_singleton hk).mpr ⟨hui, fun hik => hnew (hik ▸ hi)⟩)
    · exact Or.inr ⟨e, List.mem_append_left _ he, hrep⟩
  · intro e he herep
    obtain ⟨i, hi, hei⟩ := h.replaced e he herep
    refine ⟨i, ((hmem i).mp hi).resolve_left fun hik => hu e he ?_, hei⟩
    rw [hei, hik]
  · exact (pairwise_remove_iff hu h.tracks.apart).symm.trans h.sorted

section

variable {a : Transformer} {rest l r : List Nat} {s : TransformState}

/-- A transformer that passes nothing for its parameter leaves it out of the order. -/
theorem Ordered.leaveOut (h : Ordered done order t) (hremoved : Removed done a.spec k order rest)
    (hno : a.spec.replaces = false)
    (htracks : TransformState.Tracks (IsUntouched (done ++ [a.spec])) rest
      (Transformation.mk s (t.transformers ++ [a])).passed? s) :
    Ordered (done ++ [a.spec]) rest ⟨s, t.transformers ++ [a]⟩ where
  specs := by
    rw [List.map_append, h.specs]
    rfl
  tracks := htracks
  present := hremoved.present
  replaced e he herep := by
    rcases List.mem_append.mp he with he | he
    · exact hremoved.replaced e he herep
    · rw [List.mem_singleton.mp he, hno] at herep
      cases herep
  sorted := by
    rw [hremoved.sorted, keepOrder_append_singleton, List.nil_append]
    refine (and_iff_left ?_).symm
    intro herep
    rw [hno] at herep
    cases herep

/-- A transformer that passes something else puts its parameter back, in front of the first later
one that is untouched. -/
theorem Ordered.putBack (h : Ordered done order t) (hremoved : Removed done a.spec k order (l ++ r))
    (hyes : a.spec.replaces = true)
    (hfront : ∀ i ∈ l, IsUntouched (done ++ [a.spec]) i → i < k)
    (hback : ∀ i ∈ r.head?, IsUntouched (done ++ [a.spec]) i ∧ k < i)
    (htracks : TransformState.Tracks (IsUntouched (done ++ [a.spec])) (l ++ k :: r)
      (Transformation.mk s (t.transformers ++ [a])).passed? s) :
    Ordered (done ++ [a.spec]) (l ++ k :: r) ⟨s, t.transformers ++ [a]⟩ := by
  have hk := hremoved.arg
  have hmem : ∀ i, i ∈ l ++ k :: r ↔ i = k ∨ i ∈ l ++ r := fun i =>
    List.perm_middle.mem_iff.trans List.mem_cons
  refine ⟨?_, htracks, ?_, ?_, ?_⟩
  · rw [List.map_append, h.specs]
    rfl
  · intro i hi
    rcases (hmem i).mp hi with rfl | hi
    · exact Or.inr ⟨a.spec, List.mem_append_right _ List.mem_cons_self, hyes, hk⟩
    · exact hremoved.present i hi
  · intro e he herep
    rcases List.mem_append.mp he with he | he
    · obtain ⟨i, hi, hei⟩ := hremoved.replaced e he herep
      exact ⟨i, (hmem i).mpr (Or.inr hi), hei⟩
    · rw [List.mem_singleton.mp he]
      exact ⟨k, (hmem k).mpr (Or.inl rfl), hk⟩
  · -- once the rest is ascending, `l` may hold later parameters that were put back before
    rw [pairwise_middle_iff fun i hi => (hback i hi).2, keepOrder_append_singleton,
      List.nil_append, ← hremoved.sorted]
    refine and_congr_right fun hsorted => ?_
    refine h.yields_iff hremoved.mem hk hremoved.new hyes ?_ ?_ hsorted
    · intro i hi hui
      refine hfront i hi ((isUntouched_append_singleton hk).mpr ⟨hui, ?_⟩)
      rintro rfl
      exact hremoved.new (List.mem_append_left _ hi)
    · intro i hi
      obtain ⟨hui, hki⟩ := hback i hi
      exact ⟨((isUntouched_append_singleton hk).mp hui).1, hki⟩

end

/-- **One more transformer keeps the order exactly when it yields** to the later parameters that
were put in before it. -/
theorem Ordered.extend (h : Ordered done order t) (he : t.extend spec = .ok t') :
    ∃ order', Ordered (done ++ [spec]) order' t' := by
  simp only [Transformation.extend, Except.bind_eq_ok, Except.pure_eq_ok] at he
  obtain ⟨⟨a, s⟩, ha, rfl⟩ := he
  obtain ⟨rfl, hhandles⟩ := TransformerSpec.apply_ok ha
  have hargs := hhandles.nativeArgs
  obtain ⟨p, s₁, hp, hremove, hsome, hfill⟩ := hhandles
  obtain ⟨k, hk, hp⟩ := TransformState.arg_eq_ok.mp hp
  rw [hk] at hremove
  obtain ⟨hu, rest, hremoved, htracks⟩ := h.removeArg hk hremove
  have htext := passed?_extend hk hp (h.specs ▸ hu) hargs
  -- what it passes for the parameter decides whether that is put back
  cases hpassed : a.passed? p with
  | none =>
    rw [hpassed] at hfill hsome htext
    refine ⟨rest, h.leaveOut hremoved hsome.symm ?_⟩
    refine (htracks.congr hfill).congr_text fun i hi => ?_
    rw [htext]
    refine Function.update_of_ne ?_ _ _
    rintro rfl
    exact hremoved.new hi
  | some text =>
    rw [hpassed] at hfill hsome htext
    obtain ⟨s₂, param, s₃, hs₂, hinsert, hs₃⟩ := hfill
    rw [hk] at hinsert
    have hlt : k < s₂.nativeArgs.length := by
      have hget := (List.getElem?_eq_some_iff.mp hp).1
      rwa [← hargs, hs₃.nativeArgs, TransformState.insertArg_ok hinsert] at hget
    obtain ⟨l, r, rfl, hfront, hback, htracks⟩ :=
      (htracks.congr hs₂).insertArg hremoved.new hlt hinsert
    refine ⟨l ++ k :: r, h.putBack hremoved hsome.symm hfront hback ?_⟩
    rw [htext]
    exact htracks.congr hs₃

/-! ### The untransformed function -/

theorem length_paramsOf (c : Callable) : (TransformState.paramsOf c).length = c.args.length := by
  simp [TransformState.paramsOf]

theorem sameParams_ofCallable (function : String) (c : Callable) :
    TransformState.SameParams (TransformState.signatureOf function c)
      (TransformState.ofCallable function c) := by
  simp only [TransformState.ofCallable]
  split
  · exact .refl _
  · exact ⟨rfl, rfl, rfl, rfl, rfl⟩

theorem exposed_signatureOf (function : String) (c : Callable) :
    (TransformState.signatureOf function c).exposed.map (·.1) = List.range c.args.length := by
  rw [← length_paramsOf c]
  refine List.ext_getElem? fun i => ?_
  simp only [TransformState.signatureOf]
  grind

theorem tracks_signatureOf (function : String) (c : Callable) :
    TransformState.Tracks (IsUntouched []) (List.range c.args.length)
      (fun i => (TransformState.paramsOf c)[i]?.map (·.name))
      (TransformState.signatureOf function c) where
  nodup := List.nodup_range
  lt := fun i hi => (length_paramsOf c).symm ▸ List.mem_range.mp hi
  untouched := fun i hi _ => List.mem_range.mpr (length_paramsOf c ▸ hi)
  place := by
    intro i p
    have hu : IsUntouched [] i := by simp [IsUntouched]
    simp only [TransformState.signatureOf, List.getElem?_mapIdx, hu, and_true]
    rw [← length_paramsOf c]
    grind
  apart := by
    refine List.pairwise_lt_range.imp ?_
    intro i j hij _
    exact hij
  params := by
    simp only [TransformState.signatureOf, List.map_map]
    rw [← length_paramsOf c]
    refine List.ext_getElem? fun i => ?_
    grind
  exposed := by
    rw [exposed_signatureOf]
    exact List.pairwise_lt_range
  mem_exposed := by
    intro i
    rw [exposed_signatureOf]
  callParams := by simp [TransformState.signatureOf]

/-- The untransformed function passes its parameters as they are. -/
theorem ordered_ofCallable (function : String) (c : Callable) :
    Ordered [] (List.range c.args.length) { state := TransformState.ofCallable function c } where
  specs := rfl
  tracks := by
    have hsame := sameParams_ofCallable function c
    refine ((tracks_signatureOf function c).congr hsame).congr_text fun i _ => ?_
    simp only [Transformation.passed?, hsame.nativeArgs, List.find?_nil]
    exact Option.map_eq_bind.symm
  present := fun i _ => Or.inl (by simp [IsUntouched])
  replaced := by simp
  sorted := iff_of_true List.pairwise_lt_range trivial

/-! ### Transformed functions -/

/-- The override passes, position by position, the expressions of the native parameters that the
exposed function has. -/
def Transformation.Aligned (t : Transformation) : Prop :=
  t.state.overrideParams.map some = (t.state.exposed.map (·.1)).map t.passed?

instance (t : Transformation) : Decidable t.Aligned :=
  inferInstanceAs (Decidable (_ = _))

theorem Ordered.perm (h : Ordered done order t) : order.Perm (t.state.exposed.map (·.1)) :=
  (List.perm_ext_iff_of_nodup h.tracks.nodup
    (h.tracks.exposed.imp fun hij => Nat.ne_of_lt hij)).mpr fun i => (h.tracks.mem_exposed i).symm

theorem Ordered.eq_exposed (h : Ordered done order t) (hkeep : KeepOrder [] done) :
    order = t.state.exposed.map (·.1) :=
  h.perm.eq_of_pairwise (fun _ _ _ _ hij hji => absurd hij (Nat.lt_asymm hji))
    (h.sorted.mpr hkeep) h.tracks.exposed

theorem Ordered.aligned (h : Ordered done order t) (hkeep : KeepOrder [] done) : t.Aligned := by
  have hparams := h.tracks.params
  rw [h.eq_exposed hkeep] at hparams
  exact hparams

/-- Expressions that differ tell the parameters apart, so that their order can be read off. -/
theorem Ordered.keepOrder (h : Ordered done order t)
    (hnodup : ((t.state.exposed.map (·.1)).map t.passed?).Nodup) (ht : t.Aligned) :
    KeepOrder [] done := by
  have hinj := List.inj_on_of_nodup_map hnodup
  have heq : order = t.state.exposed.map (·.1) := by
    -- at each place the two pass the same text, which one parameter only has
    refine List.ext_getElem h.perm.length_eq fun i hi hi' => ?_
    refine hinj (h.perm.subset (List.getElem_mem hi)) (List.getElem_mem hi') ?_
    have hmap := h.tracks.params.symm.trans ht
    rw [← List.getElem_map t.passed? (h := by simpa using hi),
      ← List.getElem_map t.passed? (h := by simpa using hi')]
    exact List.getElem_of_eq hmap _
  rw [← h.sorted, heq]
  exact h.tracks.exposed

/-- Ending the edits changes nothing about the order. -/
theorem Ordered.freeze (h : Ordered done order t) :
    Ordered done order { t with state := t.state.freeze } where
  specs := h.specs
  tracks := by
    have hsame := TransformState.sameParams_freeze t.state
    refine (h.tracks.congr hsame).congr_text fun i _ => ?_
    simp only [Transformation.passed?, hsame.nativeArgs]
  present := h.present
  replaced := h.replaced
  sorted := h.sorted

theorem ordered_of_foldlM {function : String} {c : Callable} {specs : List TransformerSpec}
    {t : Transformation}
    (h : specs.foldlM Transformation.extend { state := TransformState.ofCallable function c } =
      .ok t) :
    t.state.nativeArgs = TransformState.paramsOf c ∧ ∃ order, Ordered specs order t := by
  have hall := Except.foldlM_invariant
    (fun done t => t.state.nativeArgs = TransformState.paramsOf c ∧ ∃ order, Ordered done order t)
    (fun done spec t t' ⟨hargs, order, ho⟩ he =>
      ⟨(nativeArgs_extend he).trans hargs, ho.extend he⟩)
    specs [] _ t ⟨(sameParams_ofCallable function c).nativeArgs, _, ordered_ofCallable function c⟩ h
  rw [List.nil_append] at hall
  exact hall

theorem ordered_ofSpecs {function : String} {c : Callable} {specs : List TransformerSpec}
    {t : Transformation} (h : Transformation.ofSpecs function c specs = .ok t) :
    t.state.nativeArgs = TransformState.paramsOf c ∧ ∃ order, Ordered specs order t := by
  simp only [Transformation.ofSpecs, Except.bind_eq_ok, Except.pure_eq_ok] at h
  obtain ⟨t₀, hrun, rfl⟩ := h
  obtain ⟨hargs, order, ho⟩ := ordered_of_foldlM hrun
  exact ⟨(TransformState.sameParams_freeze t₀.state).nativeArgs.trans hargs, order, ho.freeze⟩

/-- **The override passes what Python sees, in the same order, when each transformer yields** to
the later parameters that were put in before it; and only then, unless two expressions agree. -/
theorem ofSpecs_aligned {function : String} {c : Callable} {specs : List TransformerSpec}
    {t : Transformation} (h : Transformation.ofSpecs function c specs = .ok t) :
    t.state.callParams.length = c.args.length ∧
      (t.state.exposed.map (·.1)).Pairwise (· < ·) ∧
      (KeepOrder [] specs → t.Aligned) ∧
      (((t.state.exposed.map (·.1)).map t.passed?).Nodup → t.Aligned → KeepOrder [] specs) := by
  obtain ⟨hargs, order, ho⟩ := ordered_ofSpecs h
  refine ⟨?_, ho.tracks.exposed, ho.aligned, ho.keepOrder⟩
  rw [ho.tracks.callParams, hargs, length_paramsOf]

/-- A function whose parameters, of the given names, are references. -/
def ofReferences (names : List String) : Callable where
  kind := .freeFunction
  args := names.map fun name => ⟨name, .reference (.fundamental .int), none⟩

/-- A parameter that is left alone keeps the two around it apart, whichever is put in first. -/
theorem ofSpecs_aligned_around :
    ∃ t, Transformation.ofSpecs "::f" (ofReferences ["a", "b", "c"]) [⟨.input, 3⟩, ⟨.input, 1⟩] =
        .ok t ∧ t.state.callParams.length = 3 ∧ t.Aligned := by
  have hall : ∀ t, Transformation.ofSpecs "::f" (ofReferences ["a", "b", "c"])
      [⟨.input, 3⟩, ⟨.input, 1⟩] = .ok t → t.state.callParams.length = 3 ∧ t.Aligned := by
    intro t h
    obtain ⟨hlen, -, hkeep, -⟩ := ofSpecs_aligned h
    exact ⟨hlen, hkeep (by decide)⟩
  exact ⟨_, rfl, hall _ rfl⟩

/-- Neighbours that are put in from the last to the first change places in the override. -/
theorem ofSpecs_not_aligned :
    ∃ t, Transformation.ofSpecs "::f" (ofReferences ["a", "b"]) [⟨.input, 2⟩, ⟨.input, 1⟩] =
        .ok t ∧ t.state.exposed.map (·.1) = [0, 1] ∧ t.state.overrideParams = ["b", "a"] ∧
        ¬ t.Aligned :=
  ⟨_, rfl, rfl, rfl, by decide⟩

end Bindery
