import Bindery.NameMap
import Mathlib.Data.List.Basic

/-!
# Maps given by lists of pairs

A map given by a list of pairs has no values but those of the pairs, and for each name of the list
the value of one of its pairs.  The pairs of a map, taken as such a list, give the map again.

## Main definitions

* `NameMap.Ascending` — the names ascend.

## Main results

* `NameMap.mem_of_mem_values_ofList` — values come from the list.
* `NameMap.mem_values_ofList` — the only value of a name in the list is a value of the map.
* `NameMap.find?_foldl_insert` — of the values that pairs give a name the last counts.
* `NameMap.ofList_ofList` — a map is given by its own pairs.
-/

namespace Bindery.NameMap

variable {α : Type} {m : NameMap α} {name : String} {a : α}

theorem mem_insert {p : String × α} (h : p ∈ insert name a m) : p = (name, a) ∨ p ∈ m := by
  induction m with
  | nil => exact .inl (List.mem_singleton.mp h)
  | cons q m ih =>
    unfold insert at h
    split at h
    · exact List.mem_cons.mp h
    · split at h
      · exact (List.mem_cons.mp h).imp_right (List.mem_cons_of_mem q)
      · rcases List.mem_cons.mp h with h | h
        · exact .inr (h ▸ List.mem_cons_self)
        · exact (ih h).imp_right (List.mem_cons_of_mem q)

theorem mem_insert_self (name : String) (a : α) (m : NameMap α) : (name, a) ∈ insert name a m := by
  induction m with
  | nil => exact List.mem_cons_self
  | cons q m ih =>
    unfold insert
    split
    · exact List.mem_cons_self
    · split
      · exact List.mem_cons_self
      · exact List.mem_cons_of_mem q ih

/-- Giving one name a value keeps the values of the others. -/
theorem mem_insert_of_ne {p : String × α} (h : p ∈ m) (hne : p.1 ≠ name) :
    p ∈ insert name a m := by
  induction m with
  | nil => cases h
  | cons q m ih =>
    unfold insert
    rcases List.mem_cons.mp h with rfl | h
    · split
      · exact List.mem_cons_of_mem _ List.mem_cons_self
      · rw [if_neg (Ne.symm hne)]
        exact List.mem_cons_self
    · split
      · exact List.mem_cons_of_mem _ (List.mem_cons_of_mem q h)
      · split
        · exact List.mem_cons_of_mem _ h
        · exact List.mem_cons_of_mem q (ih h)

private theorem mem_foldl_insert {p : String × α} {pairs : List (String × α)} {m : NameMap α}
    (h : p ∈ pairs.foldl (fun m p => insert p.1 p.2 m) m) : p ∈ pairs ∨ p ∈ m := by
  induction pairs generalizing m with
  | nil => exact .inr h
  | cons q pairs ih =>
    rcases ih h with h | h
    · exact .inl (List.mem_cons_of_mem q h)
    · rcases mem_insert h with rfl | h
      · exact .inl List.mem_cons_self
      · exact .inr h

/-- A pair of the map is a pair of the list. -/
theorem mem_of_mem_ofList {p : String × α} {pairs : List (String × α)} (h : p ∈ ofList pairs) :
    p ∈ pairs := (mem_foldl_insert h).resolve_right List.not_mem_nil

/-- A value of the map belongs to a pair of the list. -/
theorem mem_of_mem_values_ofList {pairs : List (String × α)} (h : a ∈ (ofList pairs).values) :
    a ∈ pairs.map (·.2) := by
  obtain ⟨p, hp, rfl⟩ := List.mem_map.mp h
  exact List.mem_map_of_mem (mem_of_mem_ofList hp)

/-- A name that the list gives only one value has it in the map. -/
theorem mem_values_ofList {pairs : List (String × α)} (h : (name, a) ∈ pairs)
    (hunique : ∀ p ∈ pairs, p.1 = name → p.2 = a) : a ∈ (ofList pairs).values := by
  -- once the pair is in the map, further pairs leave it or put it in again
  have hkeep : ∀ (pairs : List (String × α)) (m : NameMap α), (∀ p ∈ pairs, p.1 = name → p.2 = a) →
      (name, a) ∈ pairs ∨ (name, a) ∈ m →
      (name, a) ∈ pairs.foldl (fun m p => insert p.1 p.2 m) m := by
    intro pairs
    induction pairs with
    | nil => exact fun m _ h => h.resolve_left List.not_mem_nil
    | cons q pairs ih =>
      intro m hunique h
      rw [List.foldl_cons]
      apply ih _ fun p hp => hunique p (List.mem_cons_of_mem q hp)
      by_cases hq : q.1 = name
      · have hqa : q.2 = a := hunique q List.mem_cons_self hq
        rw [hq, hqa]
        exact .inr (mem_insert_self name a m)
      · rcases h with h | h
        · exact .inl ((List.mem_cons.mp h).resolve_left fun h => hq (h ▸ rfl))
        · exact .inr (mem_insert_of_ne h (Ne.symm hq))
  exact List.mem_map_of_mem (f := (·.2)) (hkeep pairs [] hunique (.inl h))

theorem mem_names_insert {n : String} :
    n ∈ names (insert name a m) ↔ n = name ∨ n ∈ m.names := by
  constructor
  · intro h
    obtain ⟨p, hp, rfl⟩ := List.mem_map.mp h
    rcases mem_insert hp with rfl | hp
    · exact .inl rfl
    · exact .inr (List.mem_map_of_mem hp)
  · rintro (rfl | h)
    · exact List.mem_map_of_mem (f := (·.1)) (mem_insert_self n a m)
    · by_cases hn : n = name
      · subst hn
        exact List.mem_map_of_mem (f := (·.1)) (mem_insert_self n a m)
      · obtain ⟨p, hp, rfl⟩ := List.mem_map.mp h
        exact List.mem_map_of_mem (f := (·.1)) (mem_insert_of_ne hp hn)

/-- The names of the map are those of the list. -/
theorem mem_names_ofList {pairs : List (String × α)} :
    name ∈ (ofList pairs).names ↔ name ∈ pairs.map (·.1) := by
  have hfold : ∀ (pairs : List (String × α)) (m : NameMap α),
      name ∈ names (pairs.foldl (fun m p => insert p.1 p.2 m) m) ↔
        name ∈ pairs.map (·.1) ∨ name ∈ m.names := by
    intro pairs
    induction pairs with
    | nil => exact fun m => by simp
    | cons p pairs ih =>
      intro m
      rw [List.foldl_cons, ih, mem_names_insert, List.map_cons, List.mem_cons]
      tauto
  rw [ofList, hfold pairs []]
  exact or_iff_left List.not_mem_nil

/-! ### The value of a name -/

theorem find?_cons (p : String × α) (m : NameMap α) (n : String) :
    find? (p :: m) n = if n = p.1 then some p.2 else m.find? n := by
  unfold find?
  rw [List.lookup_cons]
  by_cases h : n = p.1
  · rw [if_pos h, beq_iff_eq.mpr h]
  · rw [if_neg h, beq_false_of_ne h]

/-- Giving one name a value leaves the values of the others alone. -/
theorem find?_insert (name : String) (a : α) (m : NameMap α) (n : String) :
    find? (insert name a m) n = if n = name then some a else m.find? n := by
  induction m with
  | nil => exact find?_cons (name, a) [] n
  | cons q m ih =>
    unfold insert
    split
    · exact find?_cons (name, a) (q :: m) n
    · split
      · next heq =>
        rw [find?_cons, find?_cons, heq]
        split <;> rfl
      · next hne =>
        rw [find?_cons, find?_cons, ih]
        -- the name and that of the first pair differ
        by_cases hn : n = name
        · rw [if_pos hn, if_pos hn, if_neg fun h => hne (hn.symm.trans h)]
        · rw [if_neg hn, if_neg hn]

/-- Of the values that pairs give a name the last counts. -/
theorem find?_foldl_insert (pairs : List (String × α)) (m : NameMap α) (n : String) :
    find? (pairs.foldl (fun m p => insert p.1 p.2 m) m) n =
      (find? pairs.reverse n).or (m.find? n) := by
  induction pairs generalizing m with
  | nil => rfl
  | cons p pairs ih =>
    have hlast : find? [p] n = if n = p.1 then some p.2 else none := find?_cons p [] n
    have hreverse : find? (p :: pairs).reverse n =
        (find? pairs.reverse n).or (find? [p] n) := by
      rw [List.reverse_cons]
      exact List.lookup_append
    rw [List.foldl_cons, ih, find?_insert, hreverse, Option.or_assoc, hlast]
    congr 1
    split <;> rfl

/-! ### The order of the names -/

/-- The names ascend, so that none is there twice. -/
def Ascending (m : NameMap α) : Prop := m.Pairwise fun p q => p.1 < q.1

theorem Ascending.nodup (h : Ascending m) : m.Nodup :=
  List.Pairwise.imp (fun hlt => fun heq => String.lt_irrefl _ (congrArg Prod.fst heq ▸ hlt)) h

theorem ascending_insert (h : Ascending m) : Ascending (insert name a m) := by
  induction m with
  | nil => exact List.pairwise_singleton _ _
  | cons q m ih =>
    obtain ⟨hq, hm⟩ := List.pairwise_cons.mp h
    unfold insert
    split
    · next hlt =>
      refine List.pairwise_cons.mpr ⟨List.forall_mem_cons.mpr ⟨hlt, fun p hp => ?_⟩, h⟩
      exact String.lt_trans hlt (hq p hp)
    · next hlt =>
      split
      · next heq =>
        subst heq
        exact List.pairwise_cons.mpr ⟨hq, hm⟩
      · next hne =>
        have hqn : q.1 < name :=
          Std.lt_of_le_of_ne (String.not_lt.mp hlt) (Ne.symm hne)
        refine List.pairwise_cons.mpr ⟨fun p hp => ?_, ih hm⟩
        rcases mem_insert hp with rfl | hp
        · exact hqn
        · exact hq p hp

theorem ascending_foldl_insert (pairs : List (String × α)) (h : Ascending m) :
    Ascending (pairs.foldl (fun m p => insert p.1 p.2 m) m) := by
  induction pairs generalizing m with
  | nil => exact h
  | cons p pairs ih => exact ih (ascending_insert h)

theorem ascending_ofList (pairs : List (String × α)) : Ascending (ofList pairs) :=
  ascending_foldl_insert pairs List.Pairwise.nil

/-- A name behind all others is put at the end. -/
theorem insert_eq_append (h : ∀ p ∈ m, p.1 < name) : insert name a m = m ++ [(name, a)] := by
  induction m with
  | nil => rfl
  | cons q m ih =>
    obtain ⟨hq, hm⟩ := List.forall_mem_cons.mp h
    have hlt : ¬ name < q.1 := fun hlt => String.lt_irrefl _ (String.lt_trans hlt hq)
    have hne : name ≠ q.1 := fun heq => String.lt_irrefl _ (heq ▸ hq)
    unfold insert
    rw [if_neg hlt, if_neg hne, ih hm]
    rfl

/-- Pairs in ascending order are a map already. -/
theorem ofList_eq_self (h : Ascending m) : ofList m = m := by
  have hfold : ∀ back front : NameMap α, Ascending (front ++ back) →
      back.foldl (fun m p => insert p.1 p.2 m) front = front ++ back := by
    intro back
    induction back with
    | nil => exact fun front _ => (List.append_nil front).symm
    | cons p back ih =>
      intro front h
      have hbefore := (List.pairwise_append.mp h).2.2
      have hsplit : front ++ p :: back = (front ++ [p]) ++ back := by simp
      rw [List.foldl_cons, insert_eq_append fun q hq => hbefore q hq p List.mem_cons_self,
        ih (front ++ [p]) (hsplit ▸ h), hsplit]
  exact hfold m [] h

/-- **A map is given by its own pairs.** -/
theorem ofList_ofList (pairs : List (String × α)) : ofList (ofList pairs) = ofList pairs :=
  ofList_eq_self (ascending_ofList pairs)

end Bindery.NameMap
