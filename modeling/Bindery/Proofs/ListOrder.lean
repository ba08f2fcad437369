import Mathlib.Data.List.Flatten
import Mathlib.Data.List.Nodup

/-!
# Places in lists

Registrations, visits and child lists are lists in which an entry keeps its place while others
join.

## Main definitions

* `Before l a b` — `a` stands before `b` in a list.

## Main results

* `Before.idxOf_lt` — the places of two entries of a list without repetitions.
* `Before.total`, `Before.asymm` — exactly one of two entries stands before the other.
* `Before.flatMap` — the order of a list is the order of what its entries stand for.
* `foldl_eraseDups` — repetitions do not count where a step passes over what is done.
* `insertIdx_append` — an entry put at the border of two lists.
-/

namespace Bindery

/-- `a` stands before `b` in the list. -/
def Before {α : Type} (l : List α) (a b : α) : Prop := [a, b].Sublist l

namespace Before

variable {α : Type} {l l' : List α} {a b : α}

theorem mono (h : Before l a b) (hl : l.Sublist l') : Before l' a b := List.Sublist.trans h hl

theorem of_mem_left (ha : a ∈ l) : Before (l ++ [b]) a b :=
  List.Sublist.append (List.singleton_sublist.mpr ha) (List.Sublist.refl [b])

theorem of_mem_right (hb : b ∈ l) : Before (a :: l) a b :=
  List.Sublist.cons_cons a (List.singleton_sublist.mpr hb)

theorem mem_left (h : Before l a b) : a ∈ l := List.Sublist.subset h List.mem_cons_self

theorem mem_right (h : Before l a b) : b ∈ l :=
  List.Sublist.subset h (List.mem_cons_of_mem a List.mem_cons_self)

theorem ne (h : Before l a b) (hl : l.Nodup) : a ≠ b := by
  have hnodup : [a, b].Nodup := hl.sublist h
  simpa using hnodup

/-- What is passed on the way to an entry stands before it. -/
theorem of_mem_takeWhile [DecidableEq α] (ha : a ∈ l.takeWhile (· ≠ b)) (hb : b ∈ l) :
    Before l a b := by
  have hdrop : b ∈ l.dropWhile (· ≠ b) := by
    rw [← List.takeWhile_append_dropWhile (p := (· ≠ b)) (l := l), List.mem_append] at hb
    exact hb.resolve_left fun h => absurd rfl (of_decide_eq_true (List.all_eq_true.mp List.all_takeWhile b h))
  rw [← List.takeWhile_append_dropWhile (p := (· ≠ b)) (l := l)]
  exact List.Sublist.append (List.singleton_sublist.mpr ha) (List.singleton_sublist.mpr hdrop)

/-- The places of two entries of a list without repetitions. -/
theorem idxOf_lt [DecidableEq α] (h : Before l a b) (hl : l.Nodup) : l.idxOf a < l.idxOf b := by
  induction l with
  | nil => cases h
  | cons x l ih =>
    obtain ⟨hx, hl⟩ := List.nodup_cons.mp hl
    cases h with
    | cons _ h =>
      have hne : ∀ c ∈ [a, b], x ≠ c := fun c hc hxc => hx (hxc ▸ h.subset hc)
      rw [List.idxOf_cons_ne l (hne a (by simp)), List.idxOf_cons_ne l (hne b (by simp))]
      exact Nat.succ_lt_succ (ih h hl)
    | cons_cons _ h =>
      have hb : b ∈ l := List.singleton_sublist.mp h
      rw [List.idxOf_cons_self, List.idxOf_cons_ne l fun (hab : a = b) => hx (hab ▸ hb)]
      exact Nat.succ_pos _

/-- Of two entries one stands before the other. -/
theorem total (ha : a ∈ l) (hb : b ∈ l) (hne : a ≠ b) : Before l a b ∨ Before l b a := by
  induction l with
  | nil => cases ha
  | cons x l ih =>
    rcases List.mem_cons.mp ha with rfl | hal
    · exact .inl (of_mem_right ((List.mem_cons.mp hb).resolve_left (Ne.symm hne)))
    · rcases List.mem_cons.mp hb with rfl | hbl
      · exact .inr (of_mem_right hal)
      · exact (ih hal hbl).imp (·.mono (List.sublist_cons_self x l))
          (·.mono (List.sublist_cons_self x l))

/-- In a list without repetitions only one of two entries stands before the other. -/
theorem asymm [DecidableEq α] (h : Before l a b) (hl : l.Nodup) : ¬ Before l b a :=
  fun h' => Nat.lt_asymm (h.idxOf_lt hl) (h'.idxOf_lt hl)

theorem of_mem_append (ha : a ∈ l) (hb : b ∈ l') : Before (l ++ l') a b :=
  List.Sublist.append (List.singleton_sublist.mpr ha) (List.singleton_sublist.mpr hb)

/-- What the entries of a list stand for comes in the order of the entries. -/
theorem flatMap {β : Type} {f : α → List β} {x y : β} (h : Before l a b) (hx : x ∈ f a)
    (hy : y ∈ f b) : Before (l.flatMap f) x y := by
  have hpair : Before ([a, b].flatMap f) x y := by
    rw [List.flatMap_cons, List.flatMap_singleton]
    exact of_mem_append hx hy
  exact hpair.mono (List.Sublist.flatMap h f)

/-- A sublist has the order of the list. -/
theorem iff_of_sublist [DecidableEq α] (hsub : l.Sublist l') (hl' : l'.Nodup) (ha : a ∈ l)
    (hb : b ∈ l) (hne : a ≠ b) : Before l a b ↔ Before l' a b := by
  refine ⟨fun h => h.mono hsub, fun h => (total ha hb hne).resolve_right fun h' => ?_⟩
  exact h.asymm hl' (h'.mono hsub)

end Before

/-! ### Repetitions -/

section

variable {α : Type} [DecidableEq α]

/-- Erasing repetitions leaves the order of the rest. -/
theorem eraseDups_sublist : ∀ l : List α, l.eraseDups.Sublist l
  | [] => List.Sublist.refl []
  | a :: l => by
    rw [List.eraseDups_cons]
    exact ((eraseDups_sublist (l.filter fun b => !b == a)).trans List.filter_sublist).cons_cons a
termination_by l => l.length
decreasing_by exact Nat.lt_succ_of_le (List.length_filter_le _ l)

theorem nodup_eraseDups : ∀ l : List α, l.eraseDups.Nodup
  | [] => List.nodup_nil
  | a :: l => by
    rw [List.eraseDups_cons]
    refine List.nodup_cons.mpr ⟨?_, nodup_eraseDups (l.filter fun b => !b == a)⟩
    rw [List.mem_eraseDups, List.mem_filter]
    simp
termination_by l => l.length
decreasing_by exact Nat.lt_succ_of_le (List.length_filter_le _ l)

section foldl

variable {σ : Type} {step : σ → α → σ} {a : α}

/-- An entry that is done is passed over wherever it stands in the list. -/
theorem foldl_filter_of_done {Done : σ → α → Prop} (hpass : ∀ s a, Done s a → step s a = s)
    (hkeep : ∀ s a b, Done s b → Done (step s a) b) :
    ∀ (l : List α) (s : σ), Done s a → l.foldl step s = (l.filter fun b => !b == a).foldl step s
  | [], _, _ => rfl
  | b :: l, s, ha => by
    have ih := foldl_filter_of_done hpass hkeep l (step s b) (hkeep s b a ha)
    by_cases hb : b = a
    · subst hb
      rw [hpass s b ha] at ih
      simpa [hpass s b ha] using ih
    · simpa [hb] using ih

/-- Where an entry is done behind its step and passed over from then on, repetitions do not
count. -/
theorem foldl_eraseDups (Done : σ → α → Prop) (hpass : ∀ s a, Done s a → step s a = s)
    (hdone : ∀ s a, Done (step s a) a) (hkeep : ∀ s a b, Done s b → Done (step s a) b) :
    ∀ (l : List α) (s : σ), l.foldl step s = l.eraseDups.foldl step s
  | [], _ => rfl
  | a :: l, s => by
    rw [List.eraseDups_cons, List.foldl_cons, List.foldl_cons,
      foldl_filter_of_done hpass hkeep l _ (hdone s a), foldl_eraseDups Done hpass hdone hkeep]
termination_by l => l.length
decreasing_by exact Nat.lt_succ_of_le (List.length_filter_le _ l)

end foldl

end

/-- An entry put at the border of two lists stands between them. -/
theorem insertIdx_append {α : Type} (a : α) : ∀ l r : List α,
    (l ++ r).insertIdx l.length a = l ++ a :: r := by
  intro l
  induction l with
  | nil => intro r; rfl
  | cons b l ih => intro r; simp [ih]

end Bindery
