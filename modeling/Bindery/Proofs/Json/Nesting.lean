import Bindery.Json.Reader
import Mathlib.Data.List.Basic
import Mathlib.Order.Lattice

/-!
# How deep a text is nested

The reader takes a limit for the arrays and objects inside each other.  What is nested deeper is
read as `Json.invalid`, which holds nothing, so that no tree it gives back is deeper than the limit.

## Main definitions

* `Json.depth` — the number of arrays and objects inside each other.

## Main results

* `Reader.depth_value`, `depth_read?` — **the reader keeps to its limit.**
-/

namespace Bindery.Json

mutual

/-- The number of arrays and objects inside each other. -/
def depth : Json → Nat
  | arr items => depths items + 1
  | obj fields => fieldDepths fields + 1
  | _ => 0

/-- The depth of the deepest item. -/
def depths : List Json → Nat
  | [] => 0
  | j :: rest => max j.depth (depths rest)

/-- The depth of the deepest field. -/
def fieldDepths : List (String × Json) → Nat
  | [] => 0
  | f :: rest => max f.2.depth (fieldDepths rest)

end

variable {d n : Nat} {j : Json} {s rest : List Char}

theorem depths_le_iff : ∀ {items : List Json}, depths items ≤ n ↔ ∀ j ∈ items, j.depth ≤ n
  | [] => by simp [depths]
  | j :: rest => by rw [depths, Nat.max_le, depths_le_iff, List.forall_mem_cons]

theorem fieldDepths_le_iff : ∀ {fields : List (String × Json)},
    fieldDepths fields ≤ n ↔ ∀ f ∈ fields, f.2.depth ≤ n
  | [] => by simp [fieldDepths]
  | f :: rest => by rw [fieldDepths, Nat.max_le, fieldDepths_le_iff, List.forall_mem_cons]

theorem depth_arr_le {items : List Json} :
    (arr items).depth ≤ n ↔ 0 < n ∧ ∀ j ∈ items, j.depth ≤ n - 1 := by
  rw [depth, ← depths_le_iff]
  omega

theorem depth_obj_le {fields : List (String × Json)} :
    (obj fields).depth ≤ n ↔ 0 < n ∧ ∀ f ∈ fields, f.2.depth ≤ n - 1 := by
  rw [depth, ← fieldDepths_le_iff]
  omega

namespace Reader

theorem depth_number (h : number s = some (j, rest)) : j.depth = 0 := by
  unfold number at h
  dsimp only at h
  split at h
  · cases h
  · split at h
    · cases h
    · simp only [Option.bind_eq_bind, Option.bind_eq_some_iff] at h
      obtain ⟨_, -, _, -, h⟩ := h
      rw [apply_ite (· = some (j, rest)), apply_ite (· = some (j, rest)), ite_prop_iff_or,
        ite_prop_iff_or] at h
      rcases h with ⟨-, h⟩ | ⟨-, ⟨-, h⟩ | ⟨-, h⟩⟩ <;>
        exact (Prod.mk.inj (Option.some.inj h)).1 ▸ rfl

/-- What the reader gives back with some bound on its recursion is no deeper than the limit. -/
structure KeepsLimit (fuel : Nat) : Prop where
  value : ∀ {d s j rest}, value fuel d s = some (j, rest) → j.depth ≤ d
  items : ∀ {d s js rest}, items fuel d s = some (js, rest) → ∀ j ∈ js, j.depth ≤ d
  fields : ∀ {d s fs rest}, fields fuel d s = some (some fs, rest) → ∀ f ∈ fs, f.2.depth ≤ d

namespace KeepsLimit

variable {fuel : Nat} (h : KeepsLimit fuel)
include h

theorem value_succ (hv : Reader.value (fuel + 1) d s = some (j, rest)) : j.depth ≤ d := by
  unfold Reader.value at hv
  split at hv
  · obtain ⟨_, -, heq⟩ := Option.map_eq_some_iff.mp hv
    exact (Prod.mk.inj heq).1 ▸ Nat.zero_le d
  · obtain ⟨_, -, heq⟩ := Option.map_eq_some_iff.mp hv
    exact (Prod.mk.inj heq).1 ▸ Nat.zero_le d
  · obtain ⟨_, -, heq⟩ := Option.map_eq_some_iff.mp hv
    exact (Prod.mk.inj heq).1 ▸ Nat.zero_le d
  · obtain ⟨⟨text, _⟩, -, hv⟩ := Option.bind_eq_some_iff.mp hv
    cases text <;> exact (Prod.mk.inj (Option.some.inj hv)).1 ▸ Nat.zero_le d
  · have hitems : ∃ js, (∀ j ∈ js, j.depth ≤ d - 1) ∧
        (if d = 0 then invalid else arr js) = j := by
      dsimp only at hv
      split at hv
      · exact ⟨[], by simp, (Prod.mk.inj (Option.some.inj hv)).1⟩
      · obtain ⟨⟨js, _⟩, hjs, hv⟩ := Option.bind_eq_some_iff.mp hv
        exact ⟨js, h.items hjs, (Prod.mk.inj (Option.some.inj hv)).1⟩
    obtain ⟨js, hjs, rfl⟩ := hitems
    split
    · exact Nat.zero_le d
    · next hd => exact depth_arr_le.mpr ⟨Nat.pos_of_ne_zero hd, hjs⟩
  · have hfields : j = invalid ∨ ∃ fs, (∀ f ∈ fs, f.2.depth ≤ d - 1) ∧
        (if d = 0 then invalid else obj fs) = j := by
      dsimp only at hv
      split at hv
      · exact .inr ⟨[], by simp, (Prod.mk.inj (Option.some.inj hv)).1⟩
      · obtain ⟨⟨fs, _⟩, hfs, hv⟩ := Option.bind_eq_some_iff.mp hv
        cases fs with
        | none => exact .inl (Prod.mk.inj (Option.some.inj hv)).1.symm
        | some fs => exact .inr ⟨fs, h.fields hfs, (Prod.mk.inj (Option.some.inj hv)).1⟩
    obtain rfl | ⟨fs, hfs, rfl⟩ := hfields
    · exact Nat.zero_le d
    · split
      · exact Nat.zero_le d
      · next hd => exact depth_obj_le.mpr ⟨Nat.pos_of_ne_zero hd, hfs⟩
  · exact (depth_number hv).le.trans (Nat.zero_le d)

theorem items_succ {js : List Json} (hi : Reader.items (fuel + 1) d s = some (js, rest)) :
    ∀ j ∈ js, j.depth ≤ d := by
  unfold Reader.items at hi
  obtain ⟨⟨j, _⟩, hv, hi⟩ := Option.bind_eq_some_iff.mp hi
  have hj := h.value hv
  dsimp only at hi
  split at hi
  · obtain ⟨⟨js', _⟩, hrest, hi⟩ := Option.bind_eq_some_iff.mp hi
    obtain ⟨rfl, -⟩ := Prod.mk.inj (Option.some.inj hi)
    exact List.forall_mem_cons.mpr ⟨hj, h.items hrest⟩
  · obtain ⟨rfl, -⟩ := Prod.mk.inj (Option.some.inj hi)
    exact List.forall_mem_singleton.mpr hj
  · cases hi

theorem fields_succ {fs : List (String × Json)}
    (hf : Reader.fields (fuel + 1) d s = some (some fs, rest)) : ∀ f ∈ fs, f.2.depth ≤ d := by
  unfold Reader.fields at hf
  split at hf
  · obtain ⟨⟨key, _⟩, -, hf⟩ := Option.bind_eq_some_iff.mp hf
    dsimp only at hf
    split at hf
    · obtain ⟨⟨j, _⟩, hv, hf⟩ := Option.bind_eq_some_iff.mp hf
      have hj := h.value hv
      dsimp only at hf
      split at hf
      · obtain ⟨⟨more, _⟩, hrest, hf⟩ := Option.bind_eq_some_iff.mp hf
        obtain ⟨heq, -⟩ := Prod.mk.inj (Option.some.inj hf)
        obtain ⟨field, hfield, heq⟩ := Option.bind_eq_some_iff.mp heq
        obtain ⟨more', rfl, heq⟩ := Option.bind_eq_some_iff.mp heq
        obtain ⟨cs, -, rfl⟩ := Option.map_eq_some_iff.mp hfield
        obtain rfl := Option.some.inj heq
        exact List.forall_mem_cons.mpr ⟨hj, h.fields hrest⟩
      · obtain ⟨heq, -⟩ := Prod.mk.inj (Option.some.inj hf)
        obtain ⟨field, hfield, rfl⟩ := Option.map_eq_some_iff.mp heq
        obtain ⟨cs, -, rfl⟩ := Option.map_eq_some_iff.mp hfield
        exact List.forall_mem_singleton.mpr hj
      · cases hf
    · cases hf
  · cases hf

end KeepsLimit

theorem keepsLimit : ∀ fuel : Nat, KeepsLimit fuel
  | 0 => ⟨fun h => (nomatch h), fun h => (nomatch h), fun h => (nomatch h)⟩
  | fuel + 1 =>
    have ih := keepsLimit fuel
    ⟨ih.value_succ, ih.items_succ, ih.fields_succ⟩

end Reader

/-- **The reader keeps to its limit.** -/
theorem depth_read? {text : String} (h : read? d text = some j) : j.depth ≤ d := by
  unfold read? at h
  dsimp only at h
  split at h
  · next hv =>
    split at h
    · obtain rfl := Option.some.inj h
      exact (Reader.keepsLimit _).value hv
    · cases h
  · cases h

end Bindery.Json
