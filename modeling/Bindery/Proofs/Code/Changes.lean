import Bindery.Proofs.Code.Editing
import Bindery.Proofs.Code.PreOrder

/-!
# Trees behind any run of changes

Whatever is done to a tree that began with one node, and whether it succeeds or fails, parents and
child lists agree behind it, and no chain of parents comes back to where it was.  The loops along
parents and children and the recursion that writes texts count nothing on their way: they end for
this reason alone.

## Main definitions

* `CodeTree.Change`, `Change.apply`, `CodeTree.changed` — all changes of a tree and their runs.
* `CodeTree.Prints` — the recursion that writes the text of a node, as it goes down to the children.

## Main results

* `WellFormed.apply`, `WellFormed.change` — every change keeps a tree well-formed.
* `WellFormed.prints` — in a well-formed tree the recursion ends, up-to-date or not what is
  remembered.
* `wellFormed_changed` — **behind any run of changes the tree is well-formed and all loops end.**
-/

namespace Bindery.CodeTree

variable {t t' s : CodeTree} {id p c : NodeId}

/-! ### Changes -/

/-- A change of a tree: an edit, or one that looks for the place where a module has its includes or
its body. -/
inductive Change
  | edit (e : Edit)
  | addInclude (header : String)
  | adoptBeforeBody (id : NodeId)
  deriving DecidableEq, Repr

/-- The tree behind a change.  Where an include is refused, its node stands alone. -/
def Change.apply (t : CodeTree) : Change → CodeTree
  | edit e => e.apply t
  | addInclude header => (t.addInclude header).2
  | adoptBeforeBody id => (t.adoptBeforeBody id).toOption.getD t

/-- The tree behind a run of changes. -/
def changed (t : CodeTree) (changes : List Change) : CodeTree := changes.foldl Change.apply t

/-! ### Texts -/

mutual

/-- The text of a node is written, which ends with this text and this tree: what is remembered is
taken, and otherwise the texts of the children are written first. -/
inductive Prints : CodeTree → NodeId → String → CodeTree → Prop
  | missing {t : CodeTree} {id : NodeId} : t.get? id = none → Prints t id "" t
  | remembered {t : CodeTree} {id : NodeId} {n : CodeNode} {text : String} :
    t.get? id = some n → n.cache = some text → Prints t id text t
  | written {t s : CodeTree} {id : NodeId} {n : CodeNode} {children : List ChildText} :
    t.get? id = some n → n.cache = none →
    PrintsEach t t (t.writtenChildren id n.kind) children s →
    Prints t id (n.kind.text (t.libraryName id) children)
      (s.remember id (n.kind.text (t.libraryName id) children))

/-- The texts of some nodes of a tree are written one after the other. -/
inductive PrintsEach : CodeTree → CodeTree → List NodeId → List ChildText → CodeTree → Prop
  | nil {t s : CodeTree} : PrintsEach t s [] [] s
  | cons {t s s₁ s₂ : CodeTree} {c : NodeId} {cs : List NodeId} {text : String}
    {children : List ChildText} :
    Prints s c text s₁ → PrintsEach t s₁ cs children s₂ →
    PrintsEach t s (c :: cs) ((t.childText? c text).toList ++ children) s₂

end

/-- What a rendering with the given bound does to any well-formed tree. -/
def Ends (fuel : Nat) : Prop :=
  ∀ (t : CodeTree) (id : NodeId), t.WellFormed → t.size ≤ fuel + (t.ancestors id).length →
    ∃ text s, (renderWithin (fuel + 1) id).run t = (text, s) ∧ Prints t id text s ∧
      s.forgetAll = t.forgetAll

private theorem filterMapM_prints {fuel : Nat} (hends : Ends fuel) (hw : t.WellFormed) :
    ∀ (cs : List NodeId) (s : CodeTree), s.forgetAll = t.forgetAll →
      (∀ c ∈ cs, t.size ≤ fuel + (t.ancestors c).length) →
      ∃ children s', (cs.filterMapM fun c => do
          return t.childText? c (← renderWithin (fuel + 1) c) : StateM CodeTree _).run s =
            (children, s') ∧ PrintsEach t s cs children s' ∧ s'.forgetAll = t.forgetAll := by
  intro cs
  induction cs with
  | nil => exact fun s hs _ => ⟨[], s, rfl, .nil, hs⟩
  | cons c cs ih =>
    intro s hs hfuel
    -- what the tree remembers so far does not count for its chains
    have halike := Alike.of_forgetAll hs
    obtain ⟨text, s₁, hrun, hprints, hs₁⟩ := hends s c (hw.congr halike.parent halike.children)
      (by rw [halike.size, ancestors_congr halike.parent halike.size]
          exact hfuel c List.mem_cons_self)
    obtain ⟨children, s₂, hrest, heach, hs₂⟩ := ih s₁ (hs₁.trans hs)
      fun d hd => hfuel d (List.mem_cons_of_mem c hd)
    refine ⟨(t.childText? c text).toList ++ children, s₂, ?_, .cons hprints heach, hs₂⟩
    have hstep : ((do return t.childText? c (← renderWithin (fuel + 1) c) :
        StateM CodeTree _).run s) = (t.childText? c text, s₁) := by
      show ((renderWithin (fuel + 1) c).run s >>= fun x =>
        (pure (t.childText? c x.1, x.2) : Id _)) = _
      rw [hrun]
      rfl
    rw [List.filterMapM_cons, StateT.run_bind, hstep]
    cases t.childText? c text with
    | none => exact hrest
    | some child =>
      show ((cs.filterMapM fun c => do
          return t.childText? c (← renderWithin (fuel + 1) c) : StateM CodeTree _).run s₁ >>=
            fun x => (pure (child :: x.1, x.2) : Id _)) = _
      rw [hrest]
      rfl

/-- By induction on the bound, which reaches the deepest nodes. -/
theorem ends (fuel : Nat) : Ends fuel := by
  induction fuel with
  | zero =>
    intro t id hw hfuel
    have hn : t.get? id = none := by
      rw [get?_eq_none_iff]
      by_contra hlt
      have := hw.length_lt (hw.climbs_ancestors id) (Nat.not_le.mp hlt)
      omega
    exact ⟨"", t, run_renderWithin_of_none hn, .missing hn, rfl⟩
  | succ fuel ih =>
    intro t id hw hfuel
    cases hn : t.get? id with
    | none => exact ⟨"", t, run_renderWithin_of_none hn, .missing hn, rfl⟩
    | some n =>
      cases hcache : n.cache with
      | some text =>
        exact ⟨text, t, run_renderWithin_of_cache hn hcache, .remembered hn hcache, rfl⟩
      | none =>
        -- a child stands one deeper, which is what the smaller bound allows for
        have hchildren : ∀ c ∈ t.writtenChildren id n.kind,
            t.size ≤ fuel + (t.ancestors c).length := by
          intro c hc
          rw [hw.ancestors_child (mem_children_of_mem_writtenChildren hc), List.length_cons]
          omega
        obtain ⟨children, s, hrun, heach, hs⟩ := filterMapM_prints ih hw _ t rfl hchildren
        exact ⟨_, _, run_renderWithin hn hcache hrun, .written hn hcache heach,
          by rw [forgetAll_remember, hs]⟩

/-- **In a well-formed tree the recursion that writes a text ends**, whether or not what is
remembered is up to date. -/
theorem WellFormed.prints (hw : t.WellFormed) (id : NodeId) :
    Prints t id (t.render id).1 (t.render id).2 ∧ (t.render id).2.forgetAll = t.forgetAll := by
  obtain ⟨text, s, hrun, hprints, hs⟩ := ends t.size t id hw (by omega)
  rw [CodeTree.render, hrun]
  exact ⟨hprints, hs⟩

/-! ### Single changes -/

theorem WellFormed.adoptAt {position : Nat} (hw : t.WellFormed)
    (hok : t.adoptAt p c position = .ok t') : t'.WellFormed := by
  obtain ⟨-, hne, hnot, u, hlinked, -, rfl⟩ := adoptAt_ok hok
  have halike := Alike.of_forgetAll (forgetAll_forgetAround u p c)
  exact (hlinked.wellFormed hw hne hnot).congr halike.parent halike.children

theorem WellFormed.remove (hw : t.WellFormed) (hok : t.remove p c = .ok t') : t'.WellFormed := by
  obtain ⟨u, front, back, hlinked, -, rfl⟩ := remove_ok hw hok
  have halike := Alike.of_forgetAll (forgetAll_forgetAround u p c)
  exact (hlinked.wellFormed_back hw).congr halike.parent halike.children

theorem WellFormed.detach (hw : t.WellFormed) (hok : t.detach c = .ok t') : t'.WellFormed := by
  simp only [CodeTree.detach, Except.bind_eq_ok] at hok
  obtain ⟨n, -, hok⟩ := hok
  split at hok
  · exact hw.remove hok
  · exact Except.pure_eq_ok.mp hok ▸ hw

/-- A move keeps a tree well-formed, also where it stops halfway. -/
theorem WellFormed.moveTo (hw : t.WellFormed) (p c : NodeId) (position : Nat) :
    (t.moveTo p c position).2.WellFormed := by
  unfold CodeTree.moveTo
  split
  · exact hw
  · next s hs =>
    have hw := hw.detach hs
    split
    · exact hw
    · next s' hs' => exact hw.adoptAt hs'

/-- What fails leaves the tree as it was. -/
theorem WellFormed.getD {r : Except TreeError CodeTree} (hw : t.WellFormed)
    (hok : ∀ t', r = .ok t' → t'.WellFormed) : (r.toOption.getD t).WellFormed := by
  cases r with
  | error e => exact hw
  | ok t' => exact hok t' rfl

theorem WellFormed.apply (hw : t.WellFormed) (e : Edit) : (e.apply t).WellFormed := by
  cases e with
  | create kind decl => exact hw.create kind decl
  | adopt p c => exact hw.getD fun _ hok => hw.adoptAt hok
  | adoptAt p c position => exact hw.getD fun _ hok => hw.adoptAt hok
  | remove p c => exact hw.getD fun _ hok => hw.remove hok
  | moveTo p c position => exact hw.moveTo p c position
  | addHeader id header =>
    refine hw.getD fun _ hok => ?_
    obtain ⟨hshape, -⟩ := addHeader_ok hok
    exact hw.congr hshape.parent hshape.children
  | replaceKind id kind =>
    refine hw.getD fun _ hok => ?_
    obtain ⟨-, rfl⟩ := replaceKind_eq_ok.mp hok
    exact hw.congr (parent?_replaced t id kind) (children_replaced t id kind)
  | render id =>
    have halike := Alike.of_forgetAll (hw.prints id).2
    exact hw.congr halike.parent halike.children

/-- **Every change keeps a tree well-formed, whether it succeeds or fails.** -/
theorem WellFormed.change (hw : t.WellFormed) (change : Change) :
    (change.apply t).WellFormed := by
  cases change with
  | edit e => exact hw.apply e
  | addInclude header =>
    have hcreated := hw.create (.include header) none
    show (t.addInclude header).2.WellFormed
    unfold CodeTree.addInclude
    split
    · exact hw
    · dsimp only
      split
      · exact hcreated
      · next s hs => exact hcreated.adoptAt hs
  | adoptBeforeBody id => exact hw.getD fun _ hok => hw.adoptAt hok

theorem WellFormed.changed (hw : t.WellFormed) (changes : List Change) :
    (t.changed changes).WellFormed := by
  induction changes generalizing t with
  | nil => exact hw
  | cons change changes ih => exact ih (hw.change change)

/-! ### Runs -/

/-- A child stands once in the list of its parent, and in no other list. -/
theorem WellFormed.count_children (hw : t.WellFormed) (hc : c ∈ t.children p) :
    (t.children p).count c = 1 ∧ ∀ q, c ∈ t.children q → q = p := by
  refine ⟨List.count_eq_one_of_mem (hw.nodup p) hc, fun q hq => ?_⟩
  exact Option.some.inj (((hw.child q c).mp hq).symm.trans ((hw.child p c).mp hc))

/-- **Whatever is done to a tree that began with one node**, a node is the parent of another exactly
if it lists it, a child is listed once and nowhere else, all chains of parents end, and the loops
that look for what is above and below a node and the recursion that writes it end as well, with what
`ancestors`, `descendants` and `render` say, of which `descendants` lists nothing twice. -/
theorem wellFormed_changed (kind : NodeKind) (changes : List Change) :
    let t := (ofKind kind).changed changes
    (∀ p c, t.parent? c = some p ↔ c ∈ t.children p) ∧
    (∀ p c, c ∈ t.children p → (t.children p).count c = 1 ∧ ∀ q, c ∈ t.children q → q = p) ∧
    ∀ id, Climbs t.parent? id (t.ancestors id) ∧
      Follows t.parent? (fun _ => false) (t.parent? id) (t.ancestors id) ∧
      Unstacks t.children [id] (t.descendants id) ∧ (t.descendants id).Nodup ∧
      Prints t id (t.render id).1 (t.render id).2 := by
  intro t
  have hw : t.WellFormed := (wellFormed_empty.create kind none).changed changes
  refine ⟨fun p c => (hw.child p c).symm, fun p c hc => hw.count_children hc, fun id => ?_⟩
  have hbelow := unstacks_flatMap hw.descendants_eq [id]
  rw [List.flatMap_singleton] at hbelow
  exact ⟨hw.climbs_ancestors id, (hw.climbs_ancestors id).follows_parent, hbelow,
    hw.nodup_descendants id, (hw.prints id).1⟩

/-- A move that would close a circle fails halfway: the node stands alone. -/
example : ((ofKind (.module "m")).changed
    [.edit (.create (.moduleBody "b") none), .edit (.adopt root 1),
      .edit (.create (.moduleBody "c") none), .edit (.adopt 1 2),
      .edit (.moveTo 2 1 0)]).parent? 1 = none := by decide +kernel

end Bindery.CodeTree
