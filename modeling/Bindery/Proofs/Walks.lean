import Bindery.Proofs.ParentChain
import Mathlib.Data.List.Flatten
import Mathlib.Data.List.TakeWhile
import Mathlib.Logic.Relation

/-!
# Loops along parents and children

Declarations and nodes are met in loops of two sorts.  One goes from parent to parent, until there
is none or a test stops it.  The other keeps a stack: it takes off what is on top, visits it, and
puts its children in its place.  Neither loop counts its rounds, so that it depends on the links
whether it ends.

## Main definitions

* `Follows parent stop current visited` — the loop along parents ends behind these visits.
* `Unstacks children stack visited` — the loop with the stack ends behind these visits.

## Main results

* `Climbs.follows`, `Follows.climbs` — loops along parents end where chains of parents do.
* `Climbs.exists_of_acyclic` — without circles, all chains of parents end.
* `unstacks_flatMap` — the loop with the stack visits everything in pre-order.
* `nodup_below` — where all chains of parents end, nothing is met twice in pre-order.
* `Follows.not_of_closed`, `Unstacks.not_of_closed` — a loop that meets a circle does not end.
-/

namespace Bindery

variable {α : Type} {parent : α → Option α} {children : α → List α} {stop : α → Bool}
  {a b : α} {l stack visited : List α} {c : Option α}

/-- The loop along parents: while there is something to look at and no test stops it there, it is
visited, and its parent is next. -/
inductive Follows (parent : α → Option α) (stop : α → Bool) : Option α → List α → Prop
  | none : Follows parent stop none []
  | stop {a : α} : stop a → Follows parent stop (some a) []
  | visit {a : α} {visited : List α} : ¬ stop a → Follows parent stop (parent a) visited →
      Follows parent stop (some a) (a :: visited)

/-- The loop with a stack: while there is something on it, what is on top is visited, and its
children take its place. -/
inductive Unstacks (children : α → List α) : List α → List α → Prop
  | empty : Unstacks children [] []
  | visit {a : α} {stack visited : List α} : Unstacks children (children a ++ stack) visited →
      Unstacks children (a :: stack) (a :: visited)

/-! ### Along parents -/

/-- Where the chain of parents ends, every loop along it ends, and has visited the chain up to the
place where the test stops it. -/
theorem Climbs.follows (stop : α → Bool) : ∀ {l : List α} {a : α}, Climbs parent a l →
    Follows parent stop (some a) ((a :: l).takeWhile (!stop ·))
  | l, a, h => by
    by_cases ha : stop a
    · rw [List.takeWhile_cons_of_neg (by simp [ha])]
      exact .stop ha
    · rw [List.takeWhile_cons_of_pos (by simp [ha])]
      refine .visit ha ?_
      cases l with
      | nil =>
        have hnone : parent a = none := h
        rw [hnone]
        exact .none
      | cons p l =>
        rw [h.1]
        exact h.2.follows stop

/-- The loop that begins behind the first visits what is above. -/
theorem Climbs.follows_parent (h : Climbs parent a l) :
    Follows parent (fun _ => false) (parent a) l := by
  have hself : (a :: l).takeWhile (fun _ => !false) = a :: l :=
    List.takeWhile_eq_self_iff.mpr fun _ _ => rfl
  have hall := h.follows fun _ => false
  rw [hself] at hall
  cases hall with
  | visit _ hrest => exact hrest

/-- A loop that nothing stops has visited the whole chain of parents. -/
theorem Follows.climbs (h : Follows parent (fun _ => false) c visited) :
    ∀ a, c = some a → ∃ l, visited = a :: l ∧ Climbs parent a l := by
  induction h with
  | none => exact fun a ha => by cases ha
  | stop hstop => cases hstop
  | @visit b visited _ hrest ih =>
    intro a ha
    obtain rfl := Option.some.inj ha
    refine ⟨visited, rfl, ?_⟩
    cases hp : parent b with
    | none =>
      rw [hp] at hrest
      cases hrest
      exact hp
    | some p =>
      obtain ⟨l, rfl, hl⟩ := ih p hp
      exact ⟨hp, hl⟩

/-- A loop does not end once everything that comes has a parent that comes as well. -/
theorem Follows.not_of_closed {C : α → Prop}
    (hclosed : ∀ a, C a → ¬ stop a ∧ ∃ p, parent a = some p ∧ C p) (ha : C a) :
    ¬ Follows parent stop (some a) visited := by
  intro h
  generalize hc : some a = c at h
  induction h generalizing a with
  | none => cases hc
  | stop hstop =>
    cases hc
    exact (hclosed _ ha).1 hstop
  | visit _ _ ih =>
    cases hc
    obtain ⟨-, p, hp, hCp⟩ := hclosed _ ha
    exact ih hCp hp.symm

/-- What follows the first parent of a chain is the chain above that one. -/
theorem Climbs.exists_tail (h : Climbs parent a l) (hp : parent a = some b) :
    ∃ k, l = b :: k ∧ Climbs parent b k := by
  cases l with
  | nil => exact absurd (h.symm.trans hp) (by simp)
  | cons p k =>
    obtain rfl := Option.some.inj (hp.symm.trans h.1)
    exact ⟨k, rfl, h.2⟩

/-- The parent of something in a chain is further up in it. -/
theorem Climbs.mem_of_parent {p : α} (h : Climbs parent a l) (hb : b ∈ a :: l)
    (hp : parent b = some p) : p ∈ l := by
  rcases List.mem_cons.mp hb with rfl | hb
  · obtain ⟨k, rfl, -⟩ := h.exists_tail hp
    exact List.mem_cons_self
  · obtain ⟨front, l', rfl, hl'⟩ := h.of_mem hb
    obtain ⟨k, rfl, -⟩ := hl'.exists_tail hp
    exact List.mem_append_right front (List.mem_cons_of_mem b List.mem_cons_self)

/-- What is above something stands in its chain of parents. -/
theorem Climbs.mem_of_transGen (h : Climbs parent a l)
    (hab : Relation.TransGen (fun x p => parent x = some p) a b) : b ∈ l := by
  induction hab with
  | single hp => exact h.mem_of_parent List.mem_cons_self hp
  | tail _ hp ih => exact h.mem_of_parent (List.mem_cons_of_mem a ih) hp

/-- Nothing whose chain of parents ends is above itself. -/
theorem Climbs.not_transGen_self (h : Climbs parent a l) :
    ¬ Relation.TransGen (fun x p => parent x = some p) a a :=
  fun haa => (List.nodup_cons.mp h.nodup).1 (h.mem_of_transGen haa)

/-- **Without circles all chains of parents end**, if there are finitely many parents. -/
theorem Climbs.exists_of_acyclic {parent : Nat → Option Nat} {size : Nat}
    (hin : ∀ a p, parent a = some p → p < size)
    (hacyclic : ∀ a, ¬ Relation.TransGen (fun x p => parent x = some p) a a) (a : Nat) :
    ∃ l, Climbs parent a l := by
  -- the way that led here repeats nothing, so it is no longer than there are parents
  have hway : ∀ (n : Nat) (way : List Nat) (a : Nat), (a :: way).Nodup → (∀ x ∈ a :: way, x < size) →
      (∀ x ∈ way, Relation.TransGen (fun x p => parent x = some p) x a) → size ≤ n + way.length →
      ∃ l, Climbs parent a l := by
    intro n
    induction n with
    | zero =>
      intro way a hnodup hlt _ hsize
      have hsub : (a :: way) ⊆ List.range size := fun x hx => List.mem_range.mpr (hlt x hx)
      have hle := (List.subperm_of_subset hnodup hsub).length_le
      rw [List.length_cons, List.length_range] at hle
      omega
    | succ n ih =>
      intro way a hnodup hlt habove hsize
      cases hp : parent a with
      | none => exact ⟨[], hp⟩
      | some p =>
        have habove' : ∀ x ∈ a :: way, Relation.TransGen (fun x p => parent x = some p) x p := by
          intro x hx
          rcases List.mem_cons.mp hx with rfl | hx
          · exact .single hp
          · exact (habove x hx).tail hp
        have hnew : p ∉ a :: way := fun hmem => hacyclic p (habove' p hmem)
        obtain ⟨l, hl⟩ := ih (a :: way) p (List.nodup_cons.mpr ⟨hnew, hnodup⟩)
          (List.forall_mem_cons.mpr ⟨hin a p hp, hlt⟩) habove' (by rw [List.length_cons]; omega)
        exact ⟨p :: l, hp, hl⟩
  cases hp : parent a with
  | none => exact ⟨[], hp⟩
  | some p =>
    obtain ⟨l, hl⟩ := hway size [] p (List.nodup_singleton p)
      (fun x hx => List.mem_singleton.mp hx ▸ hin a p hp) (fun x hx => absurd hx List.not_mem_nil)
      (Nat.le_add_right size 0)
    exact ⟨p :: l, hp, hl⟩

/-! ### Along children -/

/-- The loop with the stack ends where everything is above finitely many others, and has visited
what is on the stack in pre-order. -/
theorem unstacks_flatMap {below : α → List α}
    (hbelow : ∀ a, below a = a :: (children a).flatMap below) :
    ∀ stack : List α, Unstacks children stack (stack.flatMap below)
  | [] => .empty
  | a :: stack => by
    have hrest := unstacks_flatMap hbelow (children a ++ stack)
    rw [List.flatMap_cons, hbelow a]
    rw [List.flatMap_append] at hrest
    exact .visit hrest
  termination_by stack => (stack.flatMap below).length
  decreasing_by
    rw [List.flatMap_append, List.flatMap_cons, hbelow a]
    simp

/-! ### Pre-order -/

section below

variable {below : α → List α} (hbelow : ∀ a, below a = a :: (children a).flatMap below)
  (hchild : ∀ p c, c ∈ children p → parent c = some p)

include hbelow

/-- Less is below a child. -/
theorem length_below_lt (hb : b ∈ children a) : (below b).length < (below a).length := by
  have hlen := ((List.singleton_sublist.mpr hb).flatMap below).length_le
  rw [List.flatMap_singleton] at hlen
  rw [hbelow a, List.length_cons]
  omega

include hchild

/-- What is met below something has it above. -/
theorem Climbs.mem_of_mem_below (hl : Climbs parent b l) (a : α) (hb : b ∈ below a) :
    a ∈ b :: l := by
  rw [hbelow a] at hb
  rcases List.mem_cons.mp hb with rfl | hb
  · exact List.mem_cons_self
  · obtain ⟨c, hc, hb⟩ := List.mem_flatMap.mp hb
    have hmem := hl.mem_of_mem_below c hb
    exact List.mem_cons_of_mem b (hl.mem_of_parent hmem (hchild a c hc))
  termination_by (below a).length
  decreasing_by exact length_below_lt hbelow hc

/-- **Nothing is met twice in pre-order** where all chains of parents end. -/
theorem nodup_below (hnodup : ∀ a, (children a).Nodup) (hclimbs : ∀ a, ∃ l, Climbs parent a l)
    (a : α) : (below a).Nodup := by
  rw [hbelow a]
  refine List.nodup_cons.mpr ⟨fun hmem => ?_, List.nodup_flatMap.mpr ⟨fun c hc => ?_, ?_⟩⟩
  · -- a thing below its own child would be above itself
    obtain ⟨c, hc, hmem⟩ := List.mem_flatMap.mp hmem
    obtain ⟨l, hl⟩ := hclimbs a
    have habove := hl.mem_of_mem_below hbelow hchild c hmem
    exact (List.nodup_cons.mp hl.nodup).1 (hl.mem_of_parent habove (hchild a c hc))
  · exact nodup_below hnodup hclimbs c
  · -- what is below two children would have one of them above the other
    refine (hnodup a).imp_of_mem fun {c d} hc hd hne x hxc hxd => ?_
    have hbeside : ∀ {c d}, c ∈ children a → d ∈ children a → c ≠ d →
        ∀ l, Climbs parent d l → c ∉ d :: l := by
      intro c d hc hd hne l hl hmem
      rcases List.mem_cons.mp hmem with rfl | hmem
      · exact hne rfl
      · obtain ⟨k, rfl, hk⟩ := hl.exists_tail (hchild a d hd)
        have hck : Climbs parent c (a :: k) := ⟨hchild a c hc, hk⟩
        exact (List.nodup_cons.mp hck.nodup).1 hmem
    obtain ⟨l, hl⟩ := hclimbs x
    rcases hl.above_total (hl.mem_of_mem_below hbelow hchild c hxc)
      (hl.mem_of_mem_below hbelow hchild d hxd) with ⟨k, hk, hmem⟩ | ⟨k, hk, hmem⟩
    · exact hbeside hc hd hne k hk hmem
    · exact hbeside hd hc (Ne.symm hne) k hk hmem
  termination_by (below a).length
  decreasing_by exact length_below_lt hbelow hc

end below

/-! ### Loops with a stack that do not end -/

/-- A loop does not end once everything that comes has a child that comes as well. -/
theorem Unstacks.not_of_closed {C : α → Prop} (hclosed : ∀ a, C a → ∃ b ∈ children a, C b)
    (ha : C a) (hmem : a ∈ stack) : ¬ Unstacks children stack visited := by
  intro h
  induction h generalizing a with
  | empty => cases hmem
  | @visit b stack visited _ ih =>
    rcases List.mem_cons.mp hmem with rfl | hmem
    · obtain ⟨d, hd, hCd⟩ := hclosed a ha
      exact ih hCd (List.mem_append_left stack hd)
    · exact ih ha (List.mem_append_right (children b) hmem)

end Bindery
