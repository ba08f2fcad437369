import Mathlib.Data.List.Nodup
import Mathlib.Data.List.Perm.Basic
import Mathlib.Data.List.Range

/-!
# Chains of parents

Declarations and nodes of a code tree have at most one parent each.  Where following parents ends,
it visits nothing twice, so that a chain is shorter than the number of things there are.

## Main definitions

* `Climbs parent a l` — `l` is the complete list of parents above `a`, nearest first.

## Main results

* `Climbs.unique`, `Climbs.nodup` — there is one such list, without repetitions.
* `Climbs.length_lt` — it is shorter than any bound on its entries.
* `Climbs.above_total` — of two things above another, one is above the other.
* `Climbs.attach`, `Climbs.detach` — the chains behind a change of one parent.
-/

namespace Bindery

variable {α : Type} {parent parent' : α → Option α} {a c p x : α} {l l' : List α}

/-- The things above another, nearest first, are exactly the ones of the list. -/
def Climbs (parent : α → Option α) : α → List α → Prop
  | a, [] => parent a = none
  | a, p :: l => parent a = some p ∧ Climbs parent p l

namespace Climbs

theorem unique : ∀ {l l' : List α} {a : α}, Climbs parent a l → Climbs parent a l' → l = l'
  | [], [], _, _, _ => rfl
  | [], _ :: _, _, h, h' => by
    unfold Climbs at h h'
    rw [h] at h'
    exact absurd h'.1 (by simp)
  | _ :: _, [], _, h, h' => by
    unfold Climbs at h h'
    rw [h'] at h
    exact absurd h.1 (by simp)
  | p :: l, q :: l', _, h, h' => by
    obtain rfl : p = q := Option.some.inj (h.1.symm.trans h'.1)
    rw [h.2.unique h'.2]

/-- What is above an entry of a chain is the rest of the chain. -/
theorem of_mem : ∀ {l : List α} {a : α}, Climbs parent a l → x ∈ l →
    ∃ front l', l = front ++ x :: l' ∧ Climbs parent x l'
  | p :: l, _, h, hx => by
    rcases List.mem_cons.mp hx with rfl | hx
    · exact ⟨[], l, rfl, h.2⟩
    · obtain ⟨front, l', rfl, hl'⟩ := h.2.of_mem hx
      exact ⟨p :: front, l', rfl, hl'⟩

/-- No chain of parents comes back to where it was. -/
theorem nodup : ∀ {l : List α} {a : α}, Climbs parent a l → (a :: l).Nodup
  | [], _, _ => by simp
  | p :: l, a, h => by
    refine List.nodup_cons.mpr ⟨fun hmem => ?_, h.2.nodup⟩
    obtain ⟨front, l', heq, hl'⟩ := h.of_mem hmem
    -- the chain above `a` would be a proper part of itself
    have hlen := congrArg List.length heq
    rw [hl'.unique h, List.length_append, List.length_cons (a := a)] at hlen
    omega

/-- A chain is shorter than any bound on its entries. -/
theorem length_lt {parent : Nat → Option Nat} {a size : Nat} {l : List Nat}
    (h : Climbs parent a l) (ha : a < size) (hin : ∀ x ∈ l, x < size) : l.length < size := by
  have hsub : (a :: l) ⊆ List.range size :=
    List.cons_subset.mpr ⟨List.mem_range.mpr ha, fun x hx => List.mem_range.mpr (hin x hx)⟩
  have hle := (List.subperm_of_subset h.nodup hsub).length_le
  rw [List.length_cons, List.length_range] at hle
  exact hle

/-- Every parent of a chain is the parent of something in it. -/
theorem mem_parent : ∀ {l : List α} {a : α}, Climbs parent a l → x ∈ l →
    ∃ y ∈ a :: l, parent y = some x
  | p :: l, a, h, hx => by
    rcases List.mem_cons.mp hx with rfl | hx
    · exact ⟨a, List.mem_cons_self, h.1⟩
    · obtain ⟨y, hy, hparent⟩ := h.2.mem_parent hx
      exact ⟨y, List.mem_cons_of_mem a hy, hparent⟩

/-- Of two things above another, one is above the other. -/
theorem above_total : ∀ {l : List α} {a : α}, Climbs parent a l → x ∈ a :: l → c ∈ a :: l →
    (∃ l', Climbs parent c l' ∧ x ∈ c :: l') ∨ ∃ l', Climbs parent x l' ∧ c ∈ x :: l'
  | [], a, h, hx, hc => by
    rw [List.mem_singleton] at hx hc
    exact .inl ⟨[], hc ▸ h, by rw [hx, hc]; exact List.mem_cons_self⟩
  | p :: l, a, h, hx, hc => by
    rcases List.mem_cons.mp hx with rfl | hxl
    · exact .inr ⟨p :: l, h, hc⟩
    · rcases List.mem_cons.mp hc with rfl | hcl
      · exact .inl ⟨p :: l, h, hx⟩
      · exact h.2.above_total hxl hcl

/-- The first thing of a sort above one that is not of the sort, and what is just below it. -/
theorem exists_border {P : α → Prop} : ∀ {l : List α} {a : α}, Climbs parent a l → ¬ P a →
    p ∈ l → P p → ∃ x, ∃ q ∈ l, ∃ l', x ∈ a :: l ∧ ¬ P x ∧ parent x = some q ∧ P q ∧
      Climbs parent q l' ∧ p ∈ q :: l'
  | q :: l, a, h, ha, hp, hP => by
    by_cases hq : P q
    · exact ⟨a, q, List.mem_cons_self, l, List.mem_cons_self, ha, h.1, hq, h.2, hp⟩
    · have hpl : p ∈ l := (List.mem_cons.mp hp).resolve_left fun heq => hq (heq ▸ hP)
      obtain ⟨x, r, hr, l', hx, hrest⟩ := h.2.exists_border hq hpl hP
      exact ⟨x, r, List.mem_cons_of_mem q hr, l', List.mem_cons_of_mem a hx, hrest⟩

/-! ### Changes of one parent -/

/-- A chain stays where the parents of its entries stay. -/
theorem congr : ∀ {l : List α} {a : α}, Climbs parent a l →
    (∀ x ∈ a :: l, parent' x = parent x) → Climbs parent' a l
  | [], a, h, hsame => (hsame a List.mem_cons_self).trans h
  | p :: l, a, h, hsame => by
    refine ⟨(hsame a List.mem_cons_self).trans h.1, h.2.congr fun x hx => ?_⟩
    exact hsame x (List.mem_cons_of_mem a hx)

/-- The chains that end at `c` when `c` gets a parent. -/
theorem attach (hc : parent c = none) (hsame : ∀ x, x ≠ c → parent' x = parent x)
    (hp : parent' c = some p) (hl' : Climbs parent' p l') : ∀ {l : List α} {a : α},
    Climbs parent a l → c ∈ a :: l → Climbs parent' a (l ++ p :: l')
  | [], a, _, hmem => by
    rw [List.mem_singleton] at hmem
    exact hmem ▸ ⟨hp, hl'⟩
  | q :: l, a, h, hmem => by
    have hac : a ≠ c := by
      rintro rfl
      exact absurd (hc.symm.trans h.1) (by simp)
    have hmem' : c ∈ q :: l := (List.mem_cons.mp hmem).resolve_left (Ne.symm hac)
    exact ⟨(hsame a hac).trans h.1, attach hc hsame hp hl' h.2 hmem'⟩

/-- The chains when `c` loses its parent: they end at `c`. -/
theorem detach (hsame : ∀ x, x ≠ c → parent' x = parent x) (hc : parent' c = none) :
    ∀ {l : List α} {a : α}, Climbs parent a l → ∃ l', l' <+: l ∧ Climbs parent' a l'
  | [], a, h => by
    by_cases hac : a = c
    · exact ⟨[], List.prefix_refl _, hac ▸ hc⟩
    · exact ⟨[], List.prefix_refl _, (hsame a hac).trans h⟩
  | p :: l, a, h => by
    by_cases hac : a = c
    · exact ⟨[], List.nil_prefix, hac ▸ hc⟩
    · obtain ⟨l', hprefix, hl'⟩ := detach hsame hc h.2
      exact ⟨p :: l', List.cons_prefix_cons.mpr ⟨rfl, hprefix⟩, (hsame a hac).trans h.1, hl'⟩

end Climbs

end Bindery
