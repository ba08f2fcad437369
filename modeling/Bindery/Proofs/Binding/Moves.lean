import Bindery.Binding.Basic
import Bindery.Proofs.Computation
import Mathlib.Order.Defs.Unbundled

/-!
# What a binding does to what has been bound

A computation that binds declarations is described by a relation between what has been bound
before it and behind it, where it succeeds.  A relation that holds of every part of a computation
holds of the whole, if it is reflexive and transitive; relations that look at nothing but trees
hold of many parts without further ado.

## Main definitions

* `RunRelation R` — `R` is transitive and holds of changes that are of no interest for it.
* `StepRelation R` — `R` looks at trees, and is reflexive and transitive.
* `Binding.Moves R m` — a successful run of `m` leads from a state to one that `R` relates to it.

## Main results

* `Moves.bind`, `Moves.forM`, `Moves.foldlM` — compositions.
* `editTree_ok`, `place_ok`, `placeAt_ok` — what single steps do to the tree.
-/

namespace Bindery

/-- A change of neither the tree nor the wrapper classes nor the names met. -/
structure Quiet (b b' : Binder) : Prop where
  tree : b'.tree = b.tree
  wrappers : b'.wrappers = b.wrappers
  mangler : b'.mangler = b.mangler

/-- A relation between states that runs of several steps may be described by. -/
class RunRelation (R : Binder → Binder → Prop) : Prop where
  quiet : ∀ {b b'}, Quiet b b' → R b b'
  meet : ∀ b name, R b { b with mangler := b.mangler.add name }
  trans : ∀ {b b' b''}, R b b' → R b' b'' → R b b''

theorem RunRelation.refl {R : Binder → Binder → Prop} [RunRelation R] (b : Binder) : R b b :=
  quiet ⟨rfl, rfl, rfl⟩

/-- A relation between states that looks at their trees and that runs of several steps may be
described by. -/
class StepRelation (R : Binder → Binder → Prop) : Prop where
  of_tree_eq : ∀ {b b'}, b'.tree = b.tree → R b b'
  trans : ∀ {b b' b''}, R b b' → R b' b'' → R b b''

instance {R : Binder → Binder → Prop} [RunRelation R] : IsPreorder Binder R where
  refl := RunRelation.refl
  trans _ _ _ := RunRelation.trans

instance {R : Binder → Binder → Prop} [StepRelation R] : RunRelation R where
  quiet h := StepRelation.of_tree_eq h.tree
  meet _ _ := StepRelation.of_tree_eq rfl
  trans := StepRelation.trans

namespace Binding

variable {α β : Type} {R : Binder → Binder → Prop}

/-- Where the computation succeeds, the state behind it is related to the one before. -/
def Moves (R : Binder → Binder → Prop) (m : Binding α) : Prop :=
  ∀ b a b', m.run b = .ok (a, b') → R b b'

/-! ### Runs -/

theorem run_bind_eq_ok {m : Binding α} {f : α → Binding β} {b b'' : Binder} {c : β} :
    (m >>= f).run b = .ok (c, b'') ↔
      ∃ a b', m.run b = .ok (a, b') ∧ (f a).run b' = .ok (c, b'') := by
  rw [StateT.run_bind, Except.bind_eq_ok]
  exact ⟨fun ⟨⟨a, b'⟩, h⟩ => ⟨a, b', h⟩, fun ⟨a, b', h⟩ => ⟨(a, b'), h⟩⟩

theorem run_pure_eq_ok {a c : α} {b b' : Binder} :
    (pure a : Binding α).run b = .ok (c, b') ↔ a = c ∧ b = b' := by
  rw [StateT.run_pure, Except.pure_eq_ok, Prod.mk.injEq]

theorem run_get_eq_ok {b b' c : Binder} :
    (get : Binding Binder).run b = .ok (c, b') ↔ b = c ∧ b = b' := by
  rw [StateT.run_get, Except.pure_eq_ok, Prod.mk.injEq]

theorem run_modify_eq_ok {f : Binder → Binder} {b b' : Binder} {u : PUnit} :
    (modify f : Binding PUnit).run b = .ok (u, b') ↔ f b = b' := by
  show (pure ((), f b) : Except BindError _) = _ ↔ _
  rw [Except.pure_eq_ok, Prod.mk.injEq]
  exact and_iff_right rfl

theorem run_modifyGet_eq_ok {f : Binder → α × Binder} {b b' : Binder} {a : α} :
    (modifyGet f : Binding α).run b = .ok (a, b') ↔ f b = (a, b') := by
  show (pure (f b) : Except BindError _) = _ ↔ _
  rw [Except.pure_eq_ok]

theorem run_lift_missing_eq_ok {x : Except MissingDecl α} {b b' : Binder} {a : α} :
    (liftM x : Binding α).run b = .ok (a, b') ↔ x = .ok a ∧ b = b' := by
  cases x with
  | error e => exact ⟨fun h => (nomatch h), fun h => (nomatch h.1)⟩
  | ok c => exact ⟨fun h => by cases h; exact ⟨rfl, rfl⟩, fun ⟨h, hb⟩ => by cases h; rw [hb]; rfl⟩

/-- A question that has an answer is passed over. -/
theorem run_of_lift_missing {x : Except MissingDecl α} {f : α → Binding β} {b b' : Binder} {a : α}
    {c : β} (hx : x = .ok a) (h : (liftM x >>= f).run b = .ok (c, b')) :
    (f a).run b = .ok (c, b') := by
  obtain ⟨a', b₁, hlift, h⟩ := run_bind_eq_ok.mp h
  obtain ⟨ha', rfl⟩ := run_lift_missing_eq_ok.mp hlift
  obtain rfl := Except.ok.inj (hx.symm.trans ha')
  exact h

theorem run_lift_transform_eq_ok {x : Except TransformError α} {b b' : Binder} {a : α} :
    (liftM x : Binding α).run b = .ok (a, b') ↔ x = .ok a ∧ b = b' := by
  cases x with
  | error e => exact ⟨fun h => (nomatch h), fun h => (nomatch h.1)⟩
  | ok c => exact ⟨fun h => by cases h; exact ⟨rfl, rfl⟩, fun ⟨h, hb⟩ => by cases h; rw [hb]; rfl⟩

theorem run_lift_tree_eq_ok {x : Except TreeError α} {b b' : Binder} {a : α} :
    (liftM x : Binding α).run b = .ok (a, b') ↔ x = .ok a ∧ b = b' := by
  cases x with
  | error e => exact ⟨fun h => (nomatch h), fun h => (nomatch h.1)⟩
  | ok c => exact ⟨fun h => by cases h; exact ⟨rfl, rfl⟩, fun ⟨h, hb⟩ => by cases h; rw [hb]; rfl⟩

/-! ### Composition -/

section

variable [IsPreorder Binder R]

theorem Moves.pure (a : α) : Moves R (Pure.pure a : Binding α) := by
  intro b c b' h
  obtain ⟨-, rfl⟩ := run_pure_eq_ok.mp h
  exact refl_of R b

theorem Moves.bind {m : Binding α} {f : α → Binding β} (hm : Moves R m)
    (hf : ∀ a, Moves R (f a)) : Moves R (m >>= f) := by
  intro b c b'' h
  obtain ⟨a, b', hm', hf'⟩ := run_bind_eq_ok.mp h
  exact trans_of R (hm b a b' hm') (hf a b' c b'' hf')

theorem Moves.get : Moves R (get : Binding Binder) := by
  intro b c b' h
  obtain ⟨-, rfl⟩ := run_get_eq_ok.mp h
  exact refl_of R b

theorem Moves.lift_missing (x : Except MissingDecl α) : Moves R (liftM x : Binding α) := by
  intro b c b' h
  obtain ⟨-, rfl⟩ := run_lift_missing_eq_ok.mp h
  exact refl_of R b

theorem Moves.lift_tree (x : Except TreeError α) : Moves R (liftM x : Binding α) := by
  intro b c b' h
  obtain ⟨-, rfl⟩ := run_lift_tree_eq_ok.mp h
  exact refl_of R b

theorem Moves.lift_transform (x : Except TransformError α) : Moves R (liftM x : Binding α) := by
  intro b c b' h
  obtain ⟨-, rfl⟩ := run_lift_transform_eq_ok.mp h
  exact refl_of R b

theorem Moves.forM {f : α → Binding PUnit} : ∀ (l : List α), (∀ a ∈ l, Moves R (f a)) →
    Moves R (l.forM f)
  | [], _ => Moves.pure _
  | a :: l, h => by
    show Moves R (f a >>= fun _ => l.forM f)
    exact (h a List.mem_cons_self).bind fun _ =>
      Moves.forM l fun c hc => h c (List.mem_cons_of_mem a hc)

/-- Each run of a loop is led to by those in front of it, and the others lead on from it. -/
theorem exists_run_of_forM {f : α → Binding PUnit} {a : α} : ∀ {l : List α} {b b' : Binder}
    {u : PUnit}, (∀ a ∈ l, Moves R (f a)) → (l.forM f).run b = .ok (u, b') → a ∈ l →
      ∃ b₁ b₂ v, R b b₁ ∧ (f a).run b₁ = .ok (v, b₂) ∧ R b₂ b'
  | c :: l, b, b', u, h, hrun, ha => by
    have hcons : (f c >>= fun _ => l.forM f).run b = .ok (u, b') := hrun
    obtain ⟨v, b₁, hfirst, hrest⟩ := run_bind_eq_ok.mp hcons
    have hmoves : ∀ d ∈ l, Moves R (f d) := fun d hd => h d (List.mem_cons_of_mem c hd)
    rcases List.mem_cons.mp ha with rfl | ha
    · exact ⟨b, b₁, v, refl_of R b, hfirst, Moves.forM l hmoves b₁ u b' hrest⟩
    · obtain ⟨b₂, b₃, w, hbefore, hrun, hafter⟩ := exists_run_of_forM hmoves hrest ha
      have hstep := h c List.mem_cons_self b v b₁ hfirst
      exact ⟨b₂, b₃, w, trans_of R hstep hbefore, hrun, hafter⟩

theorem Moves.foldlM {f : β → α → Binding β} : ∀ (l : List α) (x : β),
    (∀ x, ∀ a ∈ l, Moves R (f x a)) → Moves R (l.foldlM f x)
  | [], _, _ => Moves.pure _
  | a :: l, x, h => by
    rw [List.foldlM_cons]
    exact (h x a List.mem_cons_self).bind fun y =>
      Moves.foldlM l y fun z c hc => h z c (List.mem_cons_of_mem a hc)

theorem Moves.forIn {f : α → β → Binding (ForInStep β)} (h : ∀ a x, Moves R (f a x)) :
    ∀ (l : List α) (x : β), Moves R (forIn l x f)
  | [], x => by
    rw [List.forIn_nil]
    exact Moves.pure x
  | a :: l, x => by
    rw [List.forIn_cons]
    refine (h a x).bind fun r => ?_
    cases r with
    | done y => exact Moves.pure y
    | yield y => exact Moves.forIn h l y

end

section

variable [RunRelation R]

theorem Moves.modify {f : Binder → Binder} (h : ∀ b, Quiet b (f b)) :
    Moves R (modify f : Binding PUnit) := by
  intro b a b' hrun
  rw [← run_modify_eq_ok.mp hrun]
  exact RunRelation.quiet (h b)

theorem Moves.modifyGet {f : Binder → α × Binder} (h : ∀ b, Quiet b (f b).2) :
    Moves R (modifyGet f : Binding α) := by
  intro b a b' hrun
  have hf := h b
  rw [run_modifyGet_eq_ok.mp hrun] at hf
  exact RunRelation.quiet hf

end

/-! ### Steps on the tree -/

theorem editTree_ok {edit : CodeTree → Except TreeError CodeTree} {b b' : Binder} {u : PUnit}
    (h : (editTree edit).run b = .ok (u, b')) :
    ∃ t, edit b.tree = .ok t ∧ b' = { b with tree := t } := by
  unfold editTree at h
  obtain ⟨c, d, hget, h⟩ := run_bind_eq_ok.mp h
  obtain ⟨rfl, rfl⟩ := run_get_eq_ok.mp hget
  cases hedit : edit b.tree with
  | error e => rw [hedit] at h; cases h
  | ok t => rw [hedit] at h; cases h; exact ⟨t, rfl, rfl⟩

theorem newNode_ok {kind : NodeKind} {decl : Option DeclId} {b b' : Binder} {id : NodeId}
    (h : (newNode kind decl).run b = .ok (id, b')) :
    id = b.tree.size ∧ b' = { b with tree := (b.tree.create kind decl).2 } := by
  unfold newNode at h
  rw [run_modifyGet_eq_ok] at h
  cases h
  exact ⟨rfl, rfl⟩

/-- A node has been made and put into the tree. -/
private theorem newNode_editTree_ok {kind : NodeKind} {decl : Option DeclId}
    {edit : NodeId → CodeTree → Except TreeError CodeTree} {b b' : Binder} {id : NodeId}
    (h : (do
      let id ← newNode kind decl
      editTree (edit id)
      return id : Binding NodeId).run b = .ok (id, b')) :
    id = b.tree.size ∧ ∃ t, edit id (b.tree.create kind decl).2 = .ok t ∧
      b' = { b with tree := t } := by
  obtain ⟨n, b₁, hnew, h⟩ := run_bind_eq_ok.mp h
  obtain ⟨rfl, rfl⟩ := newNode_ok hnew
  obtain ⟨u, b₂, hedit, h⟩ := run_bind_eq_ok.mp h
  obtain ⟨t, ht, rfl⟩ := editTree_ok hedit
  obtain ⟨rfl, rfl⟩ := run_pure_eq_ok.mp h
  exact ⟨rfl, t, ht, rfl⟩

theorem place_ok {parent id : NodeId} {kind : NodeKind} {decl : Option DeclId} {b b' : Binder}
    (h : (place parent kind decl).run b = .ok (id, b')) :
    id = b.tree.size ∧ ∃ t, (b.tree.create kind decl).2.adopt parent id = .ok t ∧
      b' = { b with tree := t } := newNode_editTree_ok h

theorem placeAt_ok {parent id : NodeId} {position : Nat} {kind : NodeKind} {decl : Option DeclId}
    {b b' : Binder} (h : (placeAt parent position kind decl).run b = .ok (id, b')) :
    id = b.tree.size ∧ ∃ t, (b.tree.create kind decl).2.adoptAt parent id position = .ok t ∧
      b' = { b with tree := t } := newNode_editTree_ok h

theorem placeBeforeBody_ok {id : NodeId} {kind : NodeKind} {decl : Option DeclId} {b b' : Binder}
    (h : (placeBeforeBody kind decl).run b = .ok (id, b')) :
    id = b.tree.size ∧ ∃ t, (b.tree.create kind decl).2.adoptBeforeBody id = .ok t ∧
      b' = { b with tree := t } := newNode_editTree_ok h

end Binding

end Bindery
