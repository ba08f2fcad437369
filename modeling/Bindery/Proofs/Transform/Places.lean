import Bindery.Proofs.ListOrder
import Bindery.Proofs.Transform.Edits
import Mathlib.Data.List.InsertIdx
import Mathlib.Logic.Function.Basic

/-!
# The order in which an override passes its arguments

The exposed function has its parameters in the order of the native ones.  The override ought to
pass the same arguments in the same order to Python.  Its expressions carry no mark of the native
parameter they stand for, so a list of native parameters, the *order*, is kept beside them here: a
removal erases a parameter from the order, and an insertion puts one in front of the first later
parameter that no transformer has dealt with.

## Main definitions

* `Tracks u order text s` — `order` is the order of the override in the state `s`: `u` holds of the
  native parameters that no transformer has dealt with, and `text` is what is passed for each.

## Main results

* `Tracks.removeArg`, `Tracks.insertArg` — the order behind the edits.
-/

namespace Bindery

/-! ### Lists of places -/

/-- A number put behind the smaller ones of an ascending list. -/
private theorem pairwise_insert {n : Nat} : ∀ l : List Nat, l.Pairwise (· < ·) → n ∉ l →
    (l.takeWhile (· ≤ n) ++ n :: l.dropWhile (· ≤ n)).Pairwise (· < ·) := by
  intro l
  induction l with
  | nil => intro _ _; simp
  | cons a l ih =>
    intro hl hn
    rw [List.pairwise_cons] at hl
    obtain ⟨ha, hl⟩ := hl
    rw [List.mem_cons, not_or] at hn
    by_cases han : a ≤ n
    · have ih := ih hl hn.2
      simp only [List.takeWhile_cons, List.dropWhile_cons, han, decide_true, if_true,
        List.cons_append, List.pairwise_cons]
      refine ⟨?_, ih⟩
      intro b hb
      rw [List.mem_append, List.mem_cons] at hb
      rcases hb with hb | rfl | hb
      · exact ha b ((List.takeWhile_prefix _).subset hb)
      · omega
      · exact ha b ((List.dropWhile_suffix _).subset hb)
    · simp only [List.takeWhile_cons, List.dropWhile_cons, han, decide_false, Bool.false_eq_true,
        if_false, List.nil_append, List.pairwise_cons]
      refine ⟨?_, ha, hl⟩
      intro b hb
      rcases List.mem_cons.mp hb with rfl | hb
      · omega
      · have := ha b hb; omega

namespace TransformState

/-- The places behind a removal: the removed parameter has none, and those behind it move up. -/
theorem getElem?_closeGap {map : List (Option Nat)} {k place i p : Nat} :
    ((map.set k none).map (closeGap place))[i]? = some (some p) ↔
      i ≠ k ∧ ∃ e, map[i]? = some (some e) ∧ (if place < e then e - 1 else e) = p := by
  rw [List.getElem?_map, List.getElem?_set]
  by_cases hi : k = i
  · subst hi
    by_cases hl : k < map.length <;> simp [hl, closeGap]
  · rcases hm : map[i]? with _ | _ | e <;> simp [hi, Ne.symm hi, closeGap]

/-- The places behind an insertion: those from the inserted one on move down. -/
theorem getElem?_openGap {map : List (Option Nat)} {place i p : Nat} :
    (map.map (openGap place))[i]? = some (some p) ↔
      ∃ e, map[i]? = some (some e) ∧ (if place ≤ e then e + 1 else e) = p := by
  rw [List.getElem?_map]
  rcases hm : map[i]? with _ | _ | e <;> simp [openGap]

/-! ### Places in a list -/

section

variable {u : Nat → Prop} {order : List Nat} {map : List (Option Nat)} {k q : Nat}

/-- A map that knows the places of some numbers of a list still does when one is taken out. -/
private theorem place_eraseIdx (hk : order[q]? = some k)
    (h : ∀ i p, map[i]? = some (some p) ↔ order[p]? = some i ∧ u i) (i p : Nat) :
    ((map.set k none).map (closeGap q))[i]? = some (some p) ↔
      (order.eraseIdx q)[p]? = some i ∧ u i ∧ i ≠ k := by
  rw [getElem?_closeGap, List.getElem?_eraseIdx]
  constructor
  · rintro ⟨hi, e, he, rfl⟩
    obtain ⟨he, hui⟩ := (h i e).mp he
    -- the place that closes is that of `k`, so no other number is at it
    have hne : e ≠ q := by
      rintro rfl
      exact hi (Option.some.inj (he.symm.trans hk))
    refine ⟨?_, hui, hi⟩
    by_cases hqe : q < e
    · rw [if_pos hqe, if_neg (by omega), Nat.sub_add_cancel (by omega)]
      exact he
    · rw [if_neg hqe, if_pos (by omega)]
      exact he
  · rintro ⟨hp, hui, hi⟩
    refine ⟨hi, ?_⟩
    by_cases hpq : p < q
    · rw [if_pos hpq] at hp
      exact ⟨p, (h i p).mpr ⟨hp, hui⟩, by rw [if_neg (by omega)]⟩
    · rw [if_neg hpq] at hp
      exact ⟨p + 1, (h i (p + 1)).mpr ⟨hp, hui⟩, by rw [if_pos (by omega)]; rfl⟩

/-- It still does when a number is put in that it need not know. -/
private theorem place_insertIdx (hu : ¬ u k) (hle : q ≤ order.length)
    (h : ∀ i p, map[i]? = some (some p) ↔ order[p]? = some i ∧ u i) (i p : Nat) :
    (map.map (openGap q))[i]? = some (some p) ↔ (order.insertIdx q k)[p]? = some i ∧ u i := by
  rw [getElem?_openGap, List.getElem?_insertIdx]
  constructor
  · rintro ⟨e, he, rfl⟩
    obtain ⟨he, hui⟩ := (h i e).mp he
    refine ⟨?_, hui⟩
    by_cases hqe : q ≤ e
    · rw [if_pos hqe, if_neg (by omega), if_neg (by omega), Nat.add_sub_cancel]
      exact he
    · rw [if_neg hqe, if_pos (by omega)]
      exact he
  · rintro ⟨hp, hui⟩
    by_cases hpq : p < q
    · rw [if_pos hpq] at hp
      exact ⟨p, (h i p).mpr ⟨hp, hui⟩, if_neg (by omega)⟩
    · rw [if_neg hpq] at hp
      by_cases heq : p = q
      · -- at the place itself is the number that was put in
        rw [if_pos heq, if_pos (by omega)] at hp
        exact absurd (Option.some.inj hp ▸ hui) hu
      · rw [if_neg heq] at hp
        refine ⟨p - 1, (h i (p - 1)).mpr ⟨hp, hui⟩, ?_⟩
        rw [if_pos (by omega), Nat.sub_add_cancel (by omega)]

/-- Numbers of which one is in `u` are still in ascending order when another one is put behind the
smaller ones of `u` and directly in front of a larger one. -/
private theorem pairwise_apart_middle {l r : List Nat} (hu : ¬ u k)
    (h : (l ++ r).Pairwise fun i j => u i ∨ u j → i < j) (hfront : ∀ i ∈ l, u i → i < k)
    (hback : ∀ i ∈ r.head?, u i ∧ k < i) :
    (l ++ k :: r).Pairwise fun i j => u i ∨ u j → i < j := by
  obtain ⟨hl, hr, hlr⟩ := List.pairwise_append.mp h
  refine List.pairwise_append.mpr ⟨hl, List.pairwise_cons.mpr ⟨?_, hr⟩, ?_⟩
  · intro j hj huj
    cases r with
    | nil => cases hj
    | cons i rest =>
      obtain ⟨hui, hki⟩ := hback i rfl
      rcases List.mem_cons.mp hj with rfl | hj
      · exact hki
      · exact Nat.lt_trans hki ((List.pairwise_cons.mp hr).1 j hj (Or.inl hui))
  · intro i hi j hj huij
    rcases List.mem_cons.mp hj with rfl | hj
    · exact hfront i hi (huij.resolve_right hu)
    · exact hlr i hi j hj huij

end

/-! ### The order of the override -/

/-- `order` holds the native parameters that the override passes, as it passes them.  The index map
knows the places of the untouched ones. -/
structure Tracks (u : Nat → Prop) (order : List Nat) (text : Nat → Option String)
    (s : TransformState) : Prop where
  nodup : order.Nodup
  lt : ∀ i ∈ order, i < s.nativeArgs.length
  untouched : ∀ i < s.nativeArgs.length, u i → i ∈ order
  place : ∀ i p, s.argIndexMap[i]? = some (some p) ↔ order[p]? = some i ∧ u i
  /-- Only parameters that transformers have dealt with may stand in the wrong order. -/
  apart : order.Pairwise fun i j => u i ∨ u j → i < j
  params : s.overrideParams.map some = order.map text
  exposed : (s.exposed.map (·.1)).Pairwise (· < ·)
  mem_exposed : ∀ i, i ∈ s.exposed.map (·.1) ↔ i ∈ order
  callParams : s.callParams.length = s.nativeArgs.length

variable {u : Nat → Prop} {order : List Nat} {text : Nat → Option String} {s t : TransformState}
  {k : Nat}

theorem Tracks.congr (h : Tracks u order text s) (hst : SameParams s t) : Tracks u order text t where
  nodup := h.nodup
  lt := hst.nativeArgs ▸ h.lt
  untouched := hst.nativeArgs ▸ h.untouched
  place := hst.argIndexMap ▸ h.place
  apart := h.apart
  params := hst.overrideParams ▸ h.params
  exposed := hst.exposed ▸ h.exposed
  mem_exposed := hst.exposed ▸ h.mem_exposed
  callParams := by rw [hst.callParams, hst.nativeArgs, h.callParams]

/-- What is passed matters for the parameters of the order alone. -/
theorem Tracks.congr_text (h : Tracks u order text s) {text' : Nat → Option String}
    (ht : ∀ i ∈ order, text' i = text i) : Tracks u order text' s where
  nodup := h.nodup
  lt := h.lt
  untouched := h.untouched
  place := h.place
  apart := h.apart
  params := h.params.trans (List.map_congr_left fun i hi => (ht i hi).symm)
  exposed := h.exposed
  mem_exposed := h.mem_exposed
  callParams := h.callParams

theorem Tracks.length_overrideParams (h : Tracks u order text s) :
    s.overrideParams.length = order.length := by
  have := congrArg List.length h.params
  rwa [List.length_map, List.length_map] at this

/-- A parameter that is removed was untouched, and leaves a gap in the order. -/
theorem Tracks.removeArg (h : Tracks u order text s) (hr : s.removeArg (k + 1) = .ok t) :
    u k ∧ ∃ l r, order = l ++ k :: r ∧
      Tracks (fun i => u i ∧ i ≠ k) (l ++ r) text t := by
  obtain ⟨place, hplace, rfl⟩ := removeArg_ok hr
  obtain ⟨horder, hu⟩ := (h.place k place).mp hplace
  obtain ⟨hlt, hget⟩ := List.getElem?_eq_some_iff.mp horder
  refine ⟨hu, order.take place, order.drop (place + 1), ?_, ?_⟩
  · rw [← hget, ← List.drop_eq_getElem_cons hlt, List.take_append_drop]
  have herase : order.take place ++ order.drop (place + 1) = order.eraseIdx place :=
    (List.eraseIdx_eq_take_drop_succ ..).symm
  have hmem : ∀ i, i ∈ order.eraseIdx place ↔ i ∈ order ∧ i ≠ k := by
    intro i
    rw [← hget, ← h.nodup.erase_getElem place hlt, h.nodup.mem_erase_iff, and_comm]
  rw [herase]
  have hsub : (order.eraseIdx place).Sublist order := List.eraseIdx_sublist ..
  exact {
    nodup := h.nodup.sublist hsub
    lt := fun i hi => h.lt i (hsub.subset hi)
    untouched := fun i hi hui => (hmem i).mpr ⟨h.untouched i hi hui.1, hui.2⟩
    place := place_eraseIdx horder h.place
    apart := (h.apart.sublist hsub).imp fun hij hui => hij (hui.imp And.left And.left)
    params := by
      rw [← List.eraseIdx_map, ← List.eraseIdx_map, h.params]
    exposed := h.exposed.sublist (List.filter_sublist.map _)
    mem_exposed := by
      intro i
      rw [hmem, ← h.mem_exposed]
      simp only [List.mem_map, List.mem_filter]
      grind
    callParams := h.callParams }

/-- The place of an insertion: what stands from there on in the order begins with a later
untouched parameter, and no later untouched parameter stands in front of it. -/
theorem Tracks.overridePlace (h : Tracks u order text s) :
    (∀ p i, order[p]? = some i → u i → k < i → s.overridePlace k ≤ p) ∧
      (s.overridePlace k = order.length ∨
        ∃ i, order[s.overridePlace k]? = some i ∧ u i ∧ k < i) := by
  have hmem : ∀ p, p ∈ (s.argIndexMap.drop (k + 1)).filterMap id ↔
      ∃ i, k < i ∧ order[p]? = some i ∧ u i := by
    intro p
    simp only [List.mem_filterMap, id, exists_eq_right]
    simp only [List.mem_iff_getElem?, List.getElem?_drop, h.place]
    constructor
    · rintro ⟨i, hi⟩
      exact ⟨k + 1 + i, by omega, hi⟩
    · rintro ⟨i, hk, hi⟩
      exact ⟨i - (k + 1), by rwa [Nat.add_sub_cancel' (by omega)]⟩
  have hlen := h.length_overrideParams
  unfold TransformState.overridePlace
  cases hmin : ((s.argIndexMap.drop (k + 1)).filterMap id).min? with
  | none =>
    rw [List.min?_eq_none_iff] at hmin
    rw [Option.getD_none, hlen]
    refine ⟨fun p i hp hu hk => ?_, Or.inl rfl⟩
    have := (hmem p).mpr ⟨i, hk, hp, hu⟩
    rw [hmin] at this
    cases this
  | some q =>
    obtain ⟨hq, hle⟩ := List.min?_eq_some_iff.mp hmin
    rw [Option.getD_some]
    refine ⟨fun p i hp hu hk => hle p ((hmem p).mpr ⟨i, hk, hp, hu⟩), Or.inr ?_⟩
    obtain ⟨i, hk, hi, hu⟩ := (hmem q).mp hq
    exact ⟨i, hi, hu, hk⟩

/-- The place of an insertion divides the order: in front of it the untouched parameters are
earlier ones, and directly behind it is a later one. -/
theorem Tracks.overridePlace_divides (h : Tracks u order text s) (hk : k ∉ order) :
    s.overridePlace k ≤ order.length ∧
      (∀ i ∈ order.take (s.overridePlace k), u i → i < k) ∧
      ∀ i ∈ (order.drop (s.overridePlace k)).head?, u i ∧ k < i := by
  obtain ⟨hmin, hhead⟩ := h.overridePlace (k := k)
  refine ⟨?_, ?_, ?_⟩
  · rcases hhead with hl | ⟨i, hi, -⟩
    · omega
    · exact Nat.le_of_lt (List.getElem?_eq_some_iff.mp hi).1
  · intro i hi hui
    obtain ⟨p, hp, rfl⟩ := List.mem_take_iff_getElem.mp hi
    have hne : order[p] ≠ k := fun heq => hk (heq ▸ List.getElem_mem _)
    -- a later one would be at the place of the insertion or behind it
    by_contra hge
    have hplace := hmin p order[p] (List.getElem?_eq_getElem _) hui (by omega)
    omega
  · intro i hi
    rw [List.head?_drop, Option.mem_def] at hi
    rcases hhead with hl | ⟨j, hj, huj⟩
    · rw [hl, List.getElem?_eq_none (Nat.le_refl _)] at hi
      cases hi
    · rw [hj] at hi
      exact Option.some.inj hi ▸ huj

/-- A parameter that is inserted stands behind the earlier untouched ones and directly in front of
the first later one. -/
theorem Tracks.insertArg (h : Tracks u order text s) {param : Param} {expr : String}
    (hk : k ∉ order) (hlt : k < s.nativeArgs.length)
    (hs : s.insertArg (k + 1) param expr = .ok t) :
    ∃ l r, order = l ++ r ∧ (∀ i ∈ l, u i → i < k) ∧ (∀ i ∈ r.head?, u i ∧ k < i) ∧
      Tracks u (l ++ k :: r) (Function.update text k (some expr)) t := by
  obtain ⟨hle, hfront, hback⟩ := h.overridePlace_divides hk
  -- otherwise it would be in the order already
  have hu : ¬ u k := fun hu => hk (h.untouched k hlt hu)
  have ht := insertArg_ok hs
  set q := s.overridePlace k with hq
  have hsplit : order.take q ++ order.drop q = order := List.take_append_drop q order
  have hins : order.insertIdx q k = order.take q ++ k :: order.drop q := by
    have := insertIdx_append k (order.take q) (order.drop q)
    rwa [hsplit, List.length_take_of_le hle] at this
  have hmem : ∀ i, i ∈ order.take q ++ k :: order.drop q ↔ i = k ∨ i ∈ order := by
    intro i
    rw [← hins, List.mem_insertIdx hle]
  refine ⟨order.take q, order.drop q, hsplit.symm, hfront, hback, ?_⟩
  subst ht
  exact {
    nodup := List.nodup_middle.mpr (List.nodup_cons.mpr ⟨hsplit.symm ▸ hk, hsplit.symm ▸ h.nodup⟩)
    lt := by
      intro i hi
      rcases (hmem i).mp hi with rfl | hi
      · exact hlt
      · exact h.lt i hi
    untouched := fun i hi hui => (hmem i).mpr (Or.inr (h.untouched i hi hui))
    place := hins ▸ place_insertIdx hu hle h.place
    apart := pairwise_apart_middle hu (hsplit.symm ▸ h.apart) hfront hback
    params := by
      have htext : order.map (Function.update text k (some expr)) = order.map text := by
        refine List.map_congr_left fun i hi => Function.update_of_ne ?_ _ _
        rintro rfl
        exact hk hi
      rw [← hins, List.map_insertIdx, List.map_insertIdx, h.params, htext, Function.update_self]
    exposed := by
      have := pairwise_insert _ h.exposed ((h.mem_exposed k).not.mpr hk)
      rw [List.takeWhile_map, List.dropWhile_map] at this
      rw [List.map_append, List.map_cons]
      exact this
    mem_exposed := by
      intro i
      rw [hmem, ← h.mem_exposed, List.map_append, List.map_cons, List.mem_append, List.mem_cons,
        or_left_comm, ← List.mem_append, ← List.map_append, List.takeWhile_append_dropWhile]
    callParams := h.callParams }

end TransformState

end Bindery
