import Bindery.Proofs.Code.Changes

/-!
# Moves that fail

A tree is changed in place: what has been done in front of a failure stays done.  Adoption and
removal look at everything that may stand against them before they change anything, so that their
failures leave the tree as it was.  A move is a removal followed by an adoption, which looks at the
new parent only when the child has left its old one; where it fails, the child stands alone.

## Main definitions

* `InPlace` — steps that change a tree until one of them fails.
* `InPlace.adoptAt`, `InPlace.remove`, `InPlace.moveTo` — the calls, step by step.
* `InPlace.Does x t r` — the steps do to a tree what an edit does, or fail as it does, unnoticed.
* `CodeTree.Move`, `Move.run` — the calls as data, and how they end.
* `Move.Takes t p c` — the call moves the child `c` of `p`.

## Main results

* `does_adoptAt`, `does_remove`, `on_moveTo` — the steps do what the edits of the tree do.
* `WellFormed.moveTo_error_iff` — the moves of a child that fail.
* `Move.run_failed_iff` — **a failed call changes nothing, unless it is the move of a child**, which
  stands alone then.
-/

namespace Bindery

/-! ### Steps in place -/

/-- Steps that change a tree in place until one of them fails.  What has been done stays. -/
abbrev InPlace := ExceptT TreeError (StateM CodeTree)

namespace InPlace

/-- Looks a node up. -/
def node (id : NodeId) : InPlace CodeNode := do
  match (← get).node id with
  | .ok n => return n
  | .error e => throw e

/-- Gives a node another child list and one of its children another parent, one after the other,
and forgets the texts around them. -/
def relink (parent : NodeId) (children : List NodeId) (child : NodeId)
    (newParent : Option NodeId) : InPlace Unit := do
  modify (·.modify parent fun n => { n with children := some children })
  modify (·.modify child fun n => { n with parent := newParent })
  modify (·.forgetAround parent child)

/-- Makes a node that stands alone a child of another, in front of the child at a position. -/
def adoptAt (parent child : NodeId) (position : Nat) : InPlace Unit := do
  if let some current := (← node child).parent then throw (.alreadyAdopted child current)
  if child = parent ∨ child ∈ (← get).ancestors parent then throw (.cycle parent child)
  match (← node parent).children with
  | none => throw (.notCompound parent)
  | some cs =>
    if position > cs.length then throw (.positionOutOfRange parent position cs.length)
    relink parent (cs.insertIdx position child) child (some parent)

/-- Makes a node that stands alone the last child of another. -/
def adopt (parent child : NodeId) : InPlace Unit := do
  adoptAt parent child ((← get).children parent).length

/-- Makes a child stand alone. -/
def remove (parent child : NodeId) : InPlace Unit := do
  let _ ← node child
  match (← node parent).children with
  | none => throw (.notCompound parent)
  | some cs =>
    if child ∉ cs then throw (.notAChild parent child)
    relink parent (cs.erase child) child none

/-- Takes a node from its parent, if it has one. -/
def detach (child : NodeId) : InPlace Unit := do
  match (← node child).parent with
  | some current => remove current child
  | none => return

/-- Takes a node from its parent, if it has one, and makes it a child of another. -/
def moveTo (parent child : NodeId) (position : Nat) : InPlace Unit := do
  detach child
  adoptAt parent child (min position ((← get).children parent).length)

/-! ### Steps and edits -/

/-- How some steps end that begin with a tree. -/
def on {α : Type} (x : InPlace α) (t : CodeTree) : Except TreeError α × CodeTree := x.run.run t

/-- The steps `x` end on a tree with the edited tree `r`; or they fail as the edit does, and leave
the tree as it was. -/
def Does (x : InPlace Unit) (t : CodeTree) (r : Except TreeError CodeTree) : Prop :=
  x.on t = match r with
    | .error e => (.error e, t)
    | .ok t' => (.ok (), t')

section does

variable {t : CodeTree} {r : Except TreeError CodeTree} {e : TreeError} {x : InPlace Unit}

theorem Does.snd (h : Does x t r) : (x.on t).2 = r.toOption.getD t := by
  unfold Does at h
  rw [h]
  cases r <;> rfl

/-- Steps that fail where the edit fails leave the tree as it was. -/
theorem Does.unchanged (h : Does x t r) (hfail : (x.on t).1 = .error e) : (x.on t).2 = t := by
  unfold Does at h
  cases r with
  | error e' => rw [h]
  | ok t' =>
    rw [h] at hfail
    cases hfail

theorem does_throw : Does (throw e) t (throw e) := rfl

/-- A check in front of the steps. -/
theorem Does.guard {φ : Prop} [Decidable φ] (h : Does x t r) :
    Does (if φ then (throw e : InPlace PUnit) >>= fun _ => x else x) t
      (if φ then (throw e : Except TreeError PUnit) >>= fun _ => r else r) := by
  by_cases hφ : φ
  · rw [if_pos hφ, if_pos hφ]
    rfl
  · rw [if_neg hφ, if_neg hφ]
    exact h

theorem does_get {f : CodeTree → InPlace Unit} (h : Does (f t) t r) : Does (get >>= f) t r := h

/-- A node is looked up. -/
theorem does_node {id : NodeId} {f : CodeNode → InPlace Unit}
    {g : CodeNode → Except TreeError CodeTree} (h : ∀ n, t.node id = .ok n → Does (f n) t (g n)) :
    Does (node id >>= f) t (t.node id >>= g) := by
  have hstep : (node id >>= f).on t = ((match t.node id with
      | .ok n => pure n
      | .error e => throw e : InPlace CodeNode) >>= f).on t := rfl
  unfold Does
  rw [hstep]
  cases hn : t.node id with
  | ok n => exact h n hn
  | error e => rfl

theorem does_relink {p c : NodeId} {cs : List NodeId} {parent : Option NodeId} :
    Does (relink p cs c parent) t (pure ((t.relink p cs c parent).forgetAround p c)) := rfl

end does

/-- **An adoption fails in front of its first change.** -/
theorem does_adoptAt (t : CodeTree) (p c : NodeId) (position : Nat) :
    Does (adoptAt p c position) t (t.adoptAt p c position) := by
  refine does_node fun n _ => ?_
  cases n.parent with
  | some current => exact does_throw
  | none =>
    refine does_get (Does.guard (does_node fun m _ => ?_))
    cases m.children with
    | none => exact does_throw
    | some cs => exact Does.guard does_relink

theorem does_adopt (t : CodeTree) (p c : NodeId) : Does (adopt p c) t (t.adopt p c) :=
  does_get (does_adoptAt t p c (t.children p).length)

/-- **A removal fails in front of its first change.** -/
theorem does_remove (t : CodeTree) (p c : NodeId) : Does (remove p c) t (t.remove p c) := by
  refine does_node fun _ _ => does_node fun m _ => ?_
  cases m.children with
  | none => exact does_throw
  | some cs => exact Does.guard does_relink

theorem does_detach (t : CodeTree) (c : NodeId) : Does (detach c) t (t.detach c) := by
  refine does_node fun n _ => ?_
  cases n.parent with
  | some current => exact does_remove t current c
  | none => rfl

theorem on_bind {α β : Type} (x : InPlace α) (f : α → InPlace β) (t : CodeTree) :
    (x >>= f).on t = match x.on t with
      | (.ok a, t') => (f a).on t'
      | (.error e, t') => (.error e, t') := by
  have hstep : (x >>= f).on t = ExceptT.bindCont f (x.on t).1 (x.on t).2 := rfl
  rw [hstep]
  cases x.on t with
  | mk answer t' => cases answer <;> rfl

/-- A move keeps what its removal has done when the adoption fails. -/
theorem on_moveTo (t : CodeTree) (p c : NodeId) (position : Nat) :
    (moveTo p c position).on t = t.moveTo p c position := by
  unfold moveTo CodeTree.moveTo
  rw [on_bind, does_detach t c]
  cases t.detach c with
  | error e => rfl
  | ok s =>
    have hadopt := does_adoptAt s p c (min position (s.children p).length)
    dsimp only
    exact does_get (f := fun u => adoptAt p c (min position (u.children p).length)) hadopt

end InPlace

namespace CodeTree

variable {t t' : CodeTree} {p c q : NodeId} {position : Nat} {e : TreeError}

/-! ### Calls -/

/-- A call that gives a node another place. -/
inductive Move
  | adopt (parent child : NodeId)
  | adoptAt (parent child : NodeId) (position : Nat)
  | remove (parent child : NodeId)
  | moveTo (parent child : NodeId) (position : Nat)
  deriving DecidableEq, Repr

namespace Move

/-- The steps of a call. -/
def steps : Move → InPlace Unit
  | adopt p c => .adopt p c
  | adoptAt p c position => .adoptAt p c position
  | remove p c => .remove p c
  | moveTo p c position => .moveTo p c position

/-- The edit that a call makes. -/
def edit : Move → Edit
  | adopt p c => .adopt p c
  | adoptAt p c position => .adoptAt p c position
  | remove p c => .remove p c
  | moveTo p c position => .moveTo p c position

/-- How a call ends on a tree. -/
def run (m : Move) (t : CodeTree) : Except TreeError Unit × CodeTree := m.steps.on t

/-- A call does to a tree what its edit does. -/
theorem run_snd (m : Move) (t : CodeTree) : (m.run t).2 = m.edit.apply t := by
  cases m with
  | adopt p c => exact (InPlace.does_adopt t p c).snd
  | adoptAt p c position => exact (InPlace.does_adoptAt t p c position).snd
  | remove p c => exact (InPlace.does_remove t p c).snd
  | moveTo p c position => exact congrArg Prod.snd (InPlace.on_moveTo t p c position)

/-- The call moves the child `c` of `p`. -/
inductive Takes (t : CodeTree) (p c : NodeId) : Move → Prop
  | moveTo {q : NodeId} {position : Nat} : t.parent? c = some p → Takes t p c (moveTo q c position)

end Move

/-- A child can be taken from its parent. -/
theorem WellFormed.exists_detach (hw : t.WellFormed) (h : t.parent? c = some p) :
    ∃ s front back, t.detach c = .ok s ∧ Linked s p c front back t ∧
      s.hasChildList = t.hasChildList := by
  have hchild : c ∈ t.children p := (hw.child p c).mpr h
  have hlist := hasChildList_of_mem_children hchild
  obtain ⟨n, hn, hparent⟩ := Option.bind_eq_some_iff.mp h
  obtain ⟨m, cs, hm, hcs⟩ := hasChildList_iff.mp hlist
  have hchildren := children_eq hm hcs
  have hmem : c ∈ cs := hchildren ▸ hchild
  have hok : t.detach c = .ok ((t.relink p (cs.erase c) c none).forgetAround p c) := by
    rw [CodeTree.detach, node_eq_ok.mpr hn]
    show (match n.parent with
      | some current => t.remove current c
      | none => pure t) = _
    rw [hparent]
    exact remove_eq_ok hn hm hcs hmem
  obtain ⟨front, back, -, hsplit, herase⟩ := List.exists_erase_eq hmem
  have hforget := forgetAll_forgetAround (t.relink p (cs.erase c) c none) p c
  refine ⟨_, front, back, hok, Linked.congr_left ?_ (.of_forgetAll hforget),
    (hasChildList_congr hforget).trans (hasChildList_relink_eq hlist)⟩
  rw [herase]
  exact linked_relink_back hm hn (hchildren.trans hsplit) h

/-- A node without a parent is not taken from anywhere. -/
theorem detach_alone (h : t.parent? c = none) (hok : t.detach c = .ok t') : t' = t := by
  simp only [detach, Except.bind_eq_ok] at hok
  obtain ⟨n, hn, hok⟩ := hok
  rw [node_eq_ok] at hn
  have halone : n.parent = none := by simpa [parent?, hn] using h
  rw [halone] at hok
  exact (Except.pure_eq_ok.mp hok).symm

/-- The adoption of a node that stands alone, at a position that there is, succeeds unless the node
would be below itself or its parent has no child list. -/
theorem adoptAt_ok_iff (hlt : c < t.size) (halone : t.parent? c = none)
    (hle : position ≤ (t.children q).length) :
    (∃ t', t.adoptAt q c position = .ok t') ↔
      c ≠ q ∧ c ∉ t.ancestors q ∧ t.hasChildList q := by
  have hn : t.get? c = some t.nodes[c] := Array.getElem?_eq_getElem hlt
  have hparent : t.nodes[c].parent = none := by simpa [parent?, hn] using halone
  constructor
  · rintro ⟨t', hok⟩
    obtain ⟨-, hne, hnot, -⟩ := adoptAt_ok hok
    refine ⟨hne, hnot, hasChildList_iff.mpr ?_⟩
    obtain ⟨n, hn', hok⟩ := Except.bind_eq_ok.mp hok
    obtain rfl := Except.ok.inj ((node_eq_ok.mpr hn).symm.trans hn')
    rw [hparent, Except.guard_eq_ok, Except.bind_eq_ok] at hok
    obtain ⟨-, m, hm, hok⟩ := hok
    cases hcs : m.children with
    | none =>
      rw [hcs] at hok
      exact absurd hok Except.throw_ne_ok
    | some cs => exact ⟨m, cs, node_eq_ok.mp hm, hcs⟩
  · rintro ⟨hne, hnot, hlist⟩
    obtain ⟨m, cs, hm, hcs⟩ := hasChildList_iff.mp hlist
    rw [children_eq hm hcs] at hle
    exact ⟨_, adoptAt_eq_ok hn hparent hne hnot hm hcs hle⟩

/-- **The move of a child fails exactly if it leads below the child itself, or to a node without a
child list.** -/
theorem WellFormed.moveTo_error_iff (hw : t.WellFormed) (h : t.parent? c = some p) :
    (∃ e, (t.moveTo q c position).1 = .error e) ↔
      c = q ∨ c ∈ t.ancestors q ∨ ¬ t.hasChildList q := by
  obtain ⟨s, front, back, hdetach, hlinked, hlist⟩ := hw.exists_detach h
  have hws := hlinked.wellFormed_back hw
  have hlt : c < s.size := hlinked.size ▸ lt_size_of_parent? h
  have hadopt := adoptAt_ok_iff (q := q) hlt hlinked.alone
    (Nat.min_le_right position (s.children q).length)
  -- what is below the child was so before it was taken from its parent
  have habove : c ≠ q ∧ c ∉ s.ancestors q ↔ c ≠ q ∧ c ∉ t.ancestors q := by
    refine and_congr_right fun hne => not_congr ⟨fun hmem => ?_, fun hmem => ?_⟩
    · have hbelow := hlinked.mem_ancestors hws hw (List.mem_cons_of_mem q hmem)
      exact (List.mem_cons.mp hbelow).resolve_left hne
    · by_contra hnot
      have hnone : c ∉ q :: s.ancestors q := fun hq => (List.mem_cons.mp hq).elim hne hnot
      rw [hlinked.ancestors_of_not_mem hws hw hnone] at hmem
      exact hnot hmem
  rw [hlist, ← and_assoc, habove, and_assoc] at hadopt
  have hrun : (∃ e, (t.moveTo q c position).1 = .error e) ↔
      ¬ ∃ t', s.adoptAt q c (min position (s.children q).length) = .ok t' := by
    rw [CodeTree.moveTo, hdetach]
    dsimp only
    cases s.adoptAt q c (min position (s.children q).length) with
    | error e => exact ⟨fun _ ⟨_, hok⟩ => (nomatch hok), fun _ => ⟨e, rfl⟩⟩
    | ok t' => exact ⟨fun ⟨_, he⟩ => (nomatch he), fun hno => absurd ⟨t', rfl⟩ hno⟩
  rw [hrun, hadopt, not_and_or, not_and_or, not_not, not_not]

/-! ### Failed calls -/

/-- A move that fails when the node has been taken from its parent goes no further. -/
theorem moveTo_failed {s : CodeTree} (hdetach : t.detach c = .ok s)
    (h : (t.moveTo q c position).1 = .error e) : (t.moveTo q c position).2 = s := by
  unfold moveTo at h ⊢
  rw [hdetach] at h ⊢
  dsimp only at h ⊢
  cases hadopt : s.adoptAt q c (min position (s.children q).length) with
  | error e' => rfl
  | ok t' =>
    rw [hadopt] at h
    cases h

/-- A failed call on a well-formed tree. -/
theorem WellFormed.run_failed (hw : t.WellFormed) {m : Move} (h : (m.run t).1 = .error e) :
    ((¬ ∃ p c, m.Takes t p c) → (m.run t).2 = t) ∧
      ∀ p c, m.Takes t p c → ∃ front back, Linked (m.run t).2 p c front back t := by
  cases m with
  | adopt q c =>
    exact ⟨fun _ => (InPlace.does_adopt t q c).unchanged h, nofun⟩
  | adoptAt q c position =>
    exact ⟨fun _ => (InPlace.does_adoptAt t q c position).unchanged h, nofun⟩
  | remove q c =>
    exact ⟨fun _ => (InPlace.does_remove t q c).unchanged h, nofun⟩
  | moveTo q c position =>
    have hrun : (Move.moveTo q c position).run t = t.moveTo q c position :=
      InPlace.on_moveTo t q c position
    rw [hrun] at h ⊢
    constructor
    · intro hnone
      have halone : t.parent? c = none := by
        by_contra hne
        obtain ⟨p, hp⟩ := Option.ne_none_iff_exists'.mp hne
        exact hnone ⟨p, c, .moveTo hp⟩
      cases hdetach : t.detach c with
      | error e' =>
        rw [CodeTree.moveTo, hdetach]
      | ok s =>
        obtain rfl := detach_alone halone hdetach
        exact moveTo_failed hdetach h
    · rintro p _ ⟨hp⟩
      obtain ⟨s, front, back, hdetach, hlinked, -⟩ := hw.exists_detach hp
      exact ⟨front, back, moveTo_failed hdetach h ▸ hlinked⟩

/-- **A failed call leaves all parents and child lists as they were, unless it is the move of a
child.**  In that case the child stands alone, and is missing from the list of its former parent;
in all other cases the whole tree is as it was. -/
theorem Move.run_failed_iff (kind : NodeKind) (changes : List Change) (m : Move) {e : TreeError}
    (h : (m.run ((ofKind kind).changed changes)).1 = .error e) :
    let t := (ofKind kind).changed changes
    let t' := (m.run t).2
    (t'.parent? = t.parent? ∧ t'.children = t.children ↔ ¬ ∃ p c, m.Takes t p c) ∧
      ((¬ ∃ p c, m.Takes t p c) → t' = t) ∧
      ∀ p c, m.Takes t p c → ∃ front back, Linked t' p c front back t := by
  intro t t'
  have hw : t.WellFormed := (wellFormed_empty.create kind none).changed changes
  obtain ⟨hunchanged, htaken⟩ := hw.run_failed h
  refine ⟨⟨?_, fun hnone => ?_⟩, hunchanged, htaken⟩
  · rintro ⟨hparent, -⟩ ⟨p, c, htakes⟩
    obtain ⟨front, back, hlinked⟩ := htaken p c htakes
    have hnow : t'.parent? c = none := hlinked.alone
    rw [hparent, hlinked.adopted] at hnow
    cases hnow
  · rw [show t' = t from hunchanged hnone]
    exact ⟨rfl, rfl⟩

/-! ### A variable in a body -/

/-- A module whose body has a variable, and a variable behind the body. -/
def variablesAround : List Change :=
  [.edit (.create (.moduleBody "b") none), .edit (.adopt root 1),
    .edit (.create (.globalVariable "a" "::a") none), .edit (.adopt 1 2),
    .edit (.create (.globalVariable "c" "::c") none), .edit (.adopt root 3)]

/-- A body that has a parent is not adopted again, and the tree is as it was.  A variable has no
child list, and a move to it takes the child from its parent before it fails. -/
theorem Move.run_failed_iff_variable :
    let t := (ofKind (.module "m")).changed variablesAround
    ((adopt 3 1).run t).1 = .error (.alreadyAdopted 1 root) ∧ ((adopt 3 1).run t).2 = t ∧
      ((moveTo 3 2 0).run t).1 = .error (.notCompound 3) ∧
      ∃ front back, Linked ((moveTo 3 2 0).run t).2 1 2 front back t := by
  intro t
  have hadopt : ((adopt 3 1).run t).1 = .error (.alreadyAdopted 1 root) := by decide +kernel
  have hmove : ((moveTo 3 2 0).run t).1 = .error (.notCompound 3) := by decide +kernel
  obtain ⟨-, hunchanged, -⟩ := Move.run_failed_iff (.module "m") variablesAround _ hadopt
  obtain ⟨-, -, htaken⟩ := Move.run_failed_iff (.module "m") variablesAround _ hmove
  have hparent : t.parent? 2 = some 1 := by decide +kernel
  exact ⟨hadopt, hunchanged nofun, hmove, htaken 1 2 (.moveTo hparent)⟩

/-- **A move that fails may change the tree**: the variable is in the body before the call, and has
no parent behind it. -/
theorem Move.run_failed_changes : ∃ (changes : List Change) (m : Move) (e : TreeError),
    let t := (ofKind (.module "m")).changed changes
    (m.run t).1 = .error e ∧
      t.parent? 2 = some 1 ∧ (m.run t).2.parent? 2 = none ∧
      t.children 1 = [2] ∧ (m.run t).2.children 1 = [] :=
  ⟨variablesAround, .moveTo 3 2 0, .notCompound 3, by decide +kernel⟩

end CodeTree

end Bindery
