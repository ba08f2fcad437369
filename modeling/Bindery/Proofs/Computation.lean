import Mathlib.Data.List.Basic

/-!
# Computations that may fail

A computation that may fail is taken apart where it succeeds: each of its parts has succeeded, and
what holds before a run of steps and is kept by each of them holds behind the run.  Where it fails,
one of its parts has failed.

## Main results

* `Except.bind_eq_ok` — both parts of a composed computation succeed.
* `Except.guard_eq_ok` — a guard has let the computation through.
* `Except.bind_eq_error`, `Except.guard_eq_error` — a part has failed, or a guard has stopped the
  computation.
* `Except.exists_eq_ok_of_any` — a computation evaluated on a fixed input.
* `Except.foldlM_invariant` — what every step keeps, the whole run keeps.
* `Except.exists_of_mem_mapM`, `Except.filterM_eq_filter`, `Except.mem_filterM` — what comes out of
  runs over lists.
* `Except.exists_bind`, `Except.exists_mapM`, `Except.exists_filterM`, `Except.exists_foldlM` — a
  composed computation succeeds when all of its parts do.
-/

namespace Except

variable {ε α β : Type}

/-- A composed computation succeeds when both of its parts do. -/
theorem bind_eq_ok {x : Except ε α} {f : α → Except ε β} {b : β} :
    (x >>= f) = .ok b ↔ ∃ a, x = .ok a ∧ f a = .ok b := by
  cases x with
  | error e => exact ⟨fun h => (nomatch h), fun ⟨_, hx, _⟩ => (nomatch hx)⟩
  | ok a => exact ⟨fun h => ⟨a, rfl, h⟩, fun ⟨_, hx, h⟩ => Except.ok.inj hx ▸ h⟩

theorem pure_eq_ok {a b : α} : (pure a : Except ε α) = .ok b ↔ a = b :=
  ⟨Except.ok.inj, congrArg Except.ok⟩

/-- A computation behind a guard succeeds when the guard lets it through and it succeeds itself. -/
theorem guard_eq_ok {φ : Prop} [Decidable φ] {e : ε} {x : Except ε β} {b : β} :
    (if φ then (throw e : Except ε PUnit) >>= fun _ => x else x) = .ok b ↔ ¬ φ ∧ x = .ok b := by
  by_cases hφ : φ
  · rw [if_pos hφ]
    exact ⟨fun h => (nomatch h), fun h => absurd hφ h.1⟩
  · rw [if_neg hφ]
    exact (and_iff_right hφ).symm

/-- A computation whose result passes a test has a result that passes it. -/
theorem exists_eq_ok_of_any {x : Except ε α} {p : α → Bool} (h : x.toOption.any p) :
    ∃ a, x = .ok a ∧ p a := by
  cases x with
  | error e => cases h
  | ok a => exact ⟨a, rfl, h⟩

theorem throw_ne_ok {e : ε} {b : β} : (throw e : Except ε β) ≠ .ok b := fun h => (nomatch h)

/-- A composed computation fails where one of its parts does. -/
theorem bind_eq_error {x : Except ε α} {f : α → Except ε β} {e : ε} :
    (x >>= f) = .error e ↔ x = .error e ∨ ∃ a, x = .ok a ∧ f a = .error e := by
  cases x with
  | error e' =>
    refine ⟨fun h => .inl (congrArg _ (Except.error.inj h)), ?_⟩
    rintro (h | ⟨_, hx, _⟩)
    · exact congrArg _ (Except.error.inj h)
    · cases hx
  | ok a =>
    refine ⟨fun h => .inr ⟨a, rfl, h⟩, ?_⟩
    rintro (h | ⟨_, hx, h⟩)
    · cases h
    · exact Except.ok.inj hx ▸ h

/-- A computation behind a guard fails where the guard stops it, or where it fails itself. -/
theorem guard_eq_error {φ : Prop} [Decidable φ] {e e' : ε} {x : Except ε β} :
    (if φ then (throw e : Except ε PUnit) >>= fun _ => x else x) = .error e' ↔
      φ ∧ e = e' ∨ ¬ φ ∧ x = .error e' := by
  by_cases hφ : φ
  · rw [if_pos hφ]
    exact ⟨fun h => .inl ⟨hφ, Except.error.inj h⟩,
      fun h => h.elim (fun h => congrArg _ h.2) fun h => absurd hφ h.1⟩
  · rw [if_neg hφ]
    exact ⟨fun h => .inr ⟨hφ, h⟩, fun h => h.elim (fun h => absurd h.1 hφ) And.right⟩

/-- What a run of steps establishes of the steps done and the state reached, if it holds before
the first step and each step carries it on. -/
theorem foldlM_invariant {step : β → α → Except ε β} (P : List α → β → Prop)
    (hstep : ∀ done a x y, P done x → step x a = .ok y → P (done ++ [a]) y) :
    ∀ (todo done : List α) (x y : β), P done x → todo.foldlM step x = .ok y →
      P (done ++ todo) y := by
  intro todo
  induction todo with
  | nil =>
    intro done x y hx h
    rw [List.foldlM_nil, pure_eq_ok] at h
    rw [List.append_nil, ← h]
    exact hx
  | cons a rest ih =>
    intro done x y hx h
    rw [List.foldlM_cons, bind_eq_ok] at h
    obtain ⟨z, hz, hrest⟩ := h
    have := ih (done ++ [a]) z y (hstep done a x z hx hz) hrest
    rwa [List.append_assoc, List.singleton_append] at this

/-- The test has a result, and lets its entry through. -/
theorem toOption_eq_true_iff {x : Except ε Bool} :
    (x.toOption == some true) = true ↔ x = .ok true := by
  cases x with
  | error e => exact ⟨fun h => (nomatch h), fun h => (nomatch h)⟩
  | ok keep => cases keep <;> simp [Except.toOption]

private theorem filterAuxM_eq {p : α → Except ε Bool} : ∀ {l acc r : List α},
    l.filterAuxM p acc = .ok r → r = (l.filter fun a => (p a).toOption == some true).reverse ++ acc
  | [], acc, r, h => (pure_eq_ok.mp h).symm
  | c :: l, acc, r, h => by
    obtain ⟨keep, hkeep, h⟩ := bind_eq_ok.mp h
    rw [filterAuxM_eq h, List.filter_cons]
    cases keep <;> simp [hkeep, Except.toOption]

/-- The results of a run over a list come from its entries. -/
theorem exists_of_mem_mapM {f : α → Except ε β} {b : β} : ∀ {l : List α} {r : List β},
    l.mapM f = .ok r → b ∈ r → ∃ a ∈ l, f a = .ok b
  | [], r, h, hb => by
    rw [List.mapM_nil] at h
    rw [← pure_eq_ok.mp h] at hb
    cases hb
  | a :: l, r, h, hb => by
    rw [List.mapM_cons] at h
    obtain ⟨c, hc, h⟩ := bind_eq_ok.mp h
    obtain ⟨r', hr', h⟩ := bind_eq_ok.mp h
    rw [← pure_eq_ok.mp h] at hb
    rcases List.mem_cons.mp hb with rfl | hb
    · exact ⟨a, List.mem_cons_self, hc⟩
    · obtain ⟨a', ha', hfa⟩ := exists_of_mem_mapM hr' hb
      exact ⟨a', List.mem_cons_of_mem a ha', hfa⟩

/-- Every entry of a list has a result in a run over the list. -/
theorem exists_mem_of_mapM {f : α → Except ε β} {a : α} : ∀ {l : List α} {r : List β},
    l.mapM f = .ok r → a ∈ l → ∃ b ∈ r, f a = .ok b
  | c :: l, r, h, ha => by
    rw [List.mapM_cons] at h
    obtain ⟨b, hb, h⟩ := bind_eq_ok.mp h
    obtain ⟨r', hr', h⟩ := bind_eq_ok.mp h
    rw [← pure_eq_ok.mp h]
    rcases List.mem_cons.mp ha with rfl | ha
    · exact ⟨b, List.mem_cons_self, hb⟩
    · obtain ⟨b', hb', hfa⟩ := exists_mem_of_mapM hr' ha
      exact ⟨b', List.mem_cons_of_mem b hb', hfa⟩

/-- A filter whose tests have results leaves what it lets through, in its order. -/
theorem filterM_eq_filter {p : α → Except ε Bool} {l r : List α} (h : l.filterM p = .ok r) :
    r = l.filter fun a => (p a).toOption == some true := by
  obtain ⟨r', haux, hr⟩ := bind_eq_ok.mp h
  rw [← pure_eq_ok.mp hr, filterAuxM_eq haux, List.append_nil, List.reverse_reverse]

/-- What a filter leaves are the entries that it lets through. -/
theorem mem_filterM {p : α → Except ε Bool} {a : α} {l r : List α} (h : l.filterM p = .ok r) :
    a ∈ r ↔ a ∈ l ∧ p a = .ok true := by
  rw [filterM_eq_filter h, List.mem_filter, toOption_eq_true_iff]

/-! ### Computations that always succeed -/

theorem exists_bind {x : Except ε α} {f : α → Except ε β} (hx : ∃ a, x = .ok a)
    (hf : ∀ a, x = .ok a → ∃ b, f a = .ok b) : ∃ b, (x >>= f) = .ok b := by
  obtain ⟨a, ha⟩ := hx
  obtain ⟨b, hb⟩ := hf a ha
  exact ⟨b, bind_eq_ok.mpr ⟨a, ha, hb⟩⟩

theorem exists_mapM {f : α → Except ε β} : ∀ {l : List α}, (∀ a ∈ l, ∃ b, f a = .ok b) →
    ∃ r, l.mapM f = .ok r
  | [], _ => ⟨[], List.mapM_nil⟩
  | a :: l, h => by
    obtain ⟨ha, hl⟩ := List.forall_mem_cons.mp h
    rw [List.mapM_cons]
    exact exists_bind ha fun b _ => exists_bind (exists_mapM hl) fun r _ => ⟨b :: r, rfl⟩

private theorem exists_filterAuxM {p : α → Except ε Bool} : ∀ {l : List α} (acc : List α),
    (∀ a ∈ l, ∃ keep, p a = .ok keep) → ∃ r, l.filterAuxM p acc = .ok r
  | [], acc, _ => ⟨acc, rfl⟩
  | a :: l, acc, h => by
    obtain ⟨ha, hl⟩ := List.forall_mem_cons.mp h
    exact exists_bind ha fun _ _ => exists_filterAuxM _ hl

theorem exists_filterM {p : α → Except ε Bool} {l : List α}
    (h : ∀ a ∈ l, ∃ keep, p a = .ok keep) : ∃ r, l.filterM p = .ok r :=
  exists_bind (exists_filterAuxM [] h) fun r _ => ⟨r.reverse, rfl⟩

/-- A run of steps succeeds where every step does, and keeps what every step keeps. -/
theorem exists_foldlM {step : β → α → Except ε β} {P : β → Prop} : ∀ {l : List α} {x : β}, P x →
    (∀ x, ∀ a ∈ l, P x → ∃ y, step x a = .ok y ∧ P y) → ∃ y, l.foldlM step x = .ok y ∧ P y
  | [], x, hx, _ => ⟨x, List.foldlM_nil, hx⟩
  | a :: l, x, hx, h => by
    obtain ⟨y, hy, hPy⟩ := h x a List.mem_cons_self hx
    obtain ⟨z, hz, hPz⟩ :=
      exists_foldlM hPy fun x c hc => h x c (List.mem_cons_of_mem a hc)
    exact ⟨z, by rw [List.foldlM_cons]; exact bind_eq_ok.mpr ⟨y, hy, hz⟩, hPz⟩

end Except
