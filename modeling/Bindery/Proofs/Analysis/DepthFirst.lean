import Bindery.Analysis.Order
import Bindery.Proofs.ListOrder
import Mathlib.Data.List.Perm.Basic
import Mathlib.Logic.Relation

/-!
# Visiting classes depth first

While visits are going on, the classes put in order and the classes of the open visits, innermost
first, form one list without repetitions.  Opening a visit puts its class between the two parts,
and closing it moves the border by one place: a class keeps its place in the list for good.  What
has to be known about places is therefore said about that list.

## Main definitions

* `EmissionOrder.Visiting` — what holds while the visits of a path are going on.
* `EmissionOrder.Visited` — what a finished visit has added.

## Main results

* `visit_visited` — **a visit keeps all dependencies in front or reports them as back edges.**
* `visit_congr` — the bound on the length of the path is not felt.
-/

namespace Bindery

namespace EmissionOrder

variable {dependencies : DeclId → List DeclId} {classes path : List DeclId} {c d : DeclId}
  {o o' : EmissionOrder}

/-! ### Open and finished visits -/

/-- What holds of the classes put in order and the back edges reported while the visits of the
classes of `path` are going on. -/
structure Visiting (dependencies : DeclId → List DeclId) (path : List DeclId)
    (o : EmissionOrder) : Prop where
  nodup : (o.declarations ++ path).Nodup
  behind : ∀ c ∈ o.declarations, ∀ d ∈ dependencies c,
    Before o.declarations d c ∨ (c, d) ∈ o.backEdges
  /-- A back edge closes a cycle, and its class keeps its place in front of what it depends on. -/
  closes : ∀ e ∈ o.backEdges, e.2 ∈ dependencies e.1 ∧
    Relation.TransGen (fun a b => b ∈ dependencies a) e.2 e.1 ∧
    Before (o.declarations ++ path) e.1 e.2

/-- What the steps between two states add. -/
structure Extends (classes : List DeclId) (o o' : EmissionOrder) : Prop where
  declarations : o.declarations <+: o'.declarations
  backEdges : o.backEdges <+: o'.backEdges
  new : ∀ c ∈ o'.declarations, c ∈ o.declarations ∨ c ∈ classes
  newEdges : ∀ e ∈ o'.backEdges, e ∈ o.backEdges ∨ e.1 ∈ classes

/-- What a finished visit of `c` has added. -/
structure Visited (dependencies : DeclId → List DeclId) (classes path : List DeclId) (c : DeclId)
    (o o' : EmissionOrder) : Prop extends Visiting dependencies path o', Extends classes o o' where
  mem : c ∈ o'.declarations

theorem Extends.refl (classes : List DeclId) (o : EmissionOrder) : Extends classes o o :=
  ⟨List.prefix_refl _, List.prefix_refl _, fun _ => .inl, fun _ => .inl⟩

theorem Extends.trans {o'' : EmissionOrder} (h : Extends classes o o')
    (h' : Extends classes o' o'') : Extends classes o o'' where
  declarations := h.declarations.trans h'.declarations
  backEdges := h.backEdges.trans h'.backEdges
  new c hc := (h'.new c hc).elim (h.new c) .inr
  newEdges e he := (h'.newEdges e he).elim (h.newEdges e) .inr

/-- Opening a visit changes nothing about the classes in order. -/
theorem Visiting.opened (h : Visiting dependencies path o) (hc : c ∉ o.declarations ++ path) :
    Visiting dependencies (c :: path) o where
  nodup := List.nodup_middle.mpr (List.nodup_cons.mpr ⟨hc, h.nodup⟩)
  behind := h.behind
  closes e he := by
    obtain ⟨hdep, hreach, hbefore⟩ := h.closes e he
    exact ⟨hdep, hreach, hbefore.mono (List.Sublist.append_left (List.sublist_cons_self c path) _)⟩

/-- Closing a visit moves the border between the two parts of the list. -/
theorem Visiting.closed (h : Visiting dependencies (c :: path) o)
    (hdeps : ∀ d ∈ dependencies c, d ∈ o.declarations ∨ (c, d) ∈ o.backEdges) :
    Visiting dependencies path { o with declarations := o.declarations ++ [c] } where
  nodup := by simpa using h.nodup
  behind a ha d hd := by
    rcases List.mem_append.mp ha with ha | ha
    · exact (h.behind a ha d hd).imp_left fun hb => hb.mono (List.sublist_append_left _ _)
    · obtain rfl := List.mem_singleton.mp ha
      exact (hdeps d hd).imp_left Before.of_mem_left
  closes e he := by
    obtain ⟨hdep, hreach, hbefore⟩ := h.closes e he
    exact ⟨hdep, hreach, by simpa using hbefore⟩

/-- A dependency on a class whose visit is going on is reported. -/
theorem Visiting.report (h : Visiting dependencies (c :: path) o) (hd : d ∈ dependencies c)
    (hdc : d ≠ c) (hpath : ∀ p ∈ path, Relation.TransGen (fun a b => b ∈ dependencies a) p c)
    (hmem : d ∈ c :: path) :
    Visiting dependencies (c :: path) { o with backEdges := o.backEdges ++ [(c, d)] } where
  nodup := h.nodup
  behind a ha b hb := (h.behind a ha b hb).imp_right (List.mem_append_left _)
  closes e he := by
    rcases List.mem_append.mp he with he | he
    · exact h.closes e he
    · obtain rfl := List.mem_singleton.mp he
      have hin : d ∈ path := (List.mem_cons.mp hmem).resolve_left hdc
      exact ⟨hd, hpath d hin, (Before.of_mem_right hin).mono (List.sublist_append_right _ _)⟩

/-! ### The visit -/

/-- One choice of a visit of `c`: what it does about the dependency `d`, with `next` for the visit
of a dependency that has not been met. -/
def settle (path : List DeclId) (c : DeclId) (next : DeclId → EmissionOrder → EmissionOrder)
    (o : EmissionOrder) (d : DeclId) : EmissionOrder :=
  if d ∈ c :: path then { o with backEdges := o.backEdges ++ [(c, d)] }
  else if d ∈ o.declarations then o
  else next d o

theorem visit_succ (fuel : Nat) (path : List DeclId) (c : DeclId) (o : EmissionOrder) :
    visit dependencies (fuel + 1) path c o =
      let o' := (dependencies c).foldl (settle path c (visit dependencies fuel (c :: path))) o
      { o' with declarations := o'.declarations ++ [c] } := rfl

/-- The choices of a visit, when the visits they open do what they should. -/
theorem foldl_settle {next : DeclId → EmissionOrder → EmissionOrder} (hc : c ∈ classes)
    (hpath : ∀ p ∈ path, Relation.TransGen (fun a b => b ∈ dependencies a) p c)
    (hloop : ∀ d ∈ dependencies c, d ≠ c)
    (hnext : ∀ o, ∀ d ∈ dependencies c, Visiting dependencies (c :: path) o →
      d ∉ o.declarations ++ c :: path → Visited dependencies classes (c :: path) d o (next d o)) :
    ∀ (ds : List DeclId) (o : EmissionOrder), ds ⊆ dependencies c →
      Visiting dependencies (c :: path) o →
      let o' := ds.foldl (settle path c next) o
      Visiting dependencies (c :: path) o' ∧ Extends classes o o' ∧
        ∀ d ∈ ds, d ∈ o'.declarations ∨ (c, d) ∈ o'.backEdges := by
  intro ds
  induction ds with
  | nil => exact fun o _ ho => ⟨ho, Extends.refl classes o, by simp⟩
  | cons d ds ih =>
    intro o hds ho
    obtain ⟨hd, hds⟩ := List.cons_subset.mp hds
    -- the first choice leaves a state that has either the dependency or the back edge
    have hstep : Visiting dependencies (c :: path) (settle path c next o d) ∧
        Extends classes o (settle path c next o d) ∧
        (d ∈ (settle path c next o d).declarations ∨
          (c, d) ∈ (settle path c next o d).backEdges) := by
      unfold settle
      split
      · next hmem =>
        refine ⟨ho.report hd (hloop d hd) hpath hmem, ?_, .inr (by simp)⟩
        refine ⟨List.prefix_refl _, List.prefix_append _ _, fun _ => .inl, fun e he => ?_⟩
        rcases List.mem_append.mp he with he | he
        · exact .inl he
        · exact .inr (by rw [List.mem_singleton.mp he]; exact hc)
      · next hpath =>
        split
        · next hmem => exact ⟨ho, Extends.refl classes o, .inl hmem⟩
        · next hmem =>
          have h := hnext o d hd ho (by simpa [hmem] using hpath)
          exact ⟨h.toVisiting, h.toExtends, .inl h.mem⟩
    obtain ⟨hvisiting, hextends, hsettled⟩ := hstep
    obtain ⟨hvisiting', hextends', hrest⟩ := ih _ hds hvisiting
    refine ⟨hvisiting', hextends.trans hextends', List.forall_mem_cons.mpr ⟨?_, hrest⟩⟩
    exact hsettled.imp (hextends'.declarations.subset ·) (hextends'.backEdges.subset ·)

/-- The classes of the open visits are fewer than all classes. -/
theorem length_lt_of_subset {l classes : List DeclId} {c : DeclId} (hnodup : (c :: l).Nodup)
    (hsub : c :: l ⊆ classes) : l.length < classes.length :=
  (List.subperm_of_subset hnodup hsub).length_le

/-- **A visit puts the class in order, with all its dependencies in front of it or reported, and
leaves the places of the classes before it alone.** -/
theorem visit_visited (hclasses : ∀ c ∈ classes, ∀ d ∈ dependencies c, d ∈ classes ∧ d ≠ c) :
    ∀ (fuel : Nat) (path : List DeclId) (c : DeclId) (o : EmissionOrder),
      classes.length ≤ fuel + path.length → c :: path ⊆ classes →
      (∀ p ∈ path, Relation.TransGen (fun a b => b ∈ dependencies a) p c) →
      Visiting dependencies path o → c ∉ o.declarations ++ path →
      Visited dependencies classes path c o (visit dependencies fuel path c o) := by
  intro fuel
  induction fuel with
  | zero =>
    intro path c o hfuel hsub _ ho hfresh
    -- the open visits are of distinct classes, of which there are not so many
    have hnodup : (c :: path).Nodup := (ho.opened hfresh).nodup.sublist (List.sublist_append_right _ _)
    have := length_lt_of_subset hnodup hsub
    omega
  | succ fuel ih =>
    intro path c o hfuel hsub hpath ho hfresh
    obtain ⟨hc, hsub'⟩ := List.cons_subset.mp hsub
    -- `c` is open while its dependencies are visited, and each of them is reached from it
    have hnext : ∀ o, ∀ d ∈ dependencies c, Visiting dependencies (c :: path) o →
        d ∉ o.declarations ++ c :: path →
        Visited dependencies classes (c :: path) d o (visit dependencies fuel (c :: path) d o) := by
      intro o d hd ho hd'
      apply ih (c :: path) d o _ (List.cons_subset.mpr ⟨(hclasses c hc d hd).1, hsub⟩) _ ho hd'
      · rw [List.length_cons]
        omega
      · exact List.forall_mem_cons.mpr ⟨.single hd, fun p hp => (hpath p hp).tail hd⟩
    obtain ⟨hvisiting, hextends, hsettled⟩ := foldl_settle hc hpath
      (fun d hd => (hclasses c hc d hd).2) hnext _ o (List.Subset.refl _) (ho.opened hfresh)
    rw [visit_succ]
    refine { toVisiting := hvisiting.closed hsettled, toExtends := ?_, mem := by simp }
    exact {
      declarations := hextends.declarations.trans (List.prefix_append _ _)
      backEdges := hextends.backEdges
      new := fun a ha => (List.mem_append.mp ha).elim (hextends.new a)
        fun ha => .inr (List.mem_singleton.mp ha ▸ hc)
      newEdges := hextends.newEdges }

/-- Two bounds on the length of the path agree where both leave room for all classes. -/
theorem visit_congr (hclasses : ∀ c ∈ classes, ∀ d ∈ dependencies c, d ∈ classes) :
    ∀ (fuel fuel' : Nat) (path : List DeclId) (c : DeclId) (o : EmissionOrder),
      classes.length ≤ fuel + path.length → classes.length ≤ fuel' + path.length →
      (c :: path).Nodup → c :: path ⊆ classes →
      visit dependencies fuel path c o = visit dependencies fuel' path c o := by
  intro fuel
  induction fuel with
  | zero =>
    intro fuel' path c o hfuel _ hnodup hsub
    have := length_lt_of_subset hnodup hsub
    omega
  | succ fuel ih =>
    intro fuel' path c o hfuel hfuel' hnodup hsub
    cases fuel' with
    | zero =>
      have := length_lt_of_subset hnodup hsub
      omega
    | succ fuel' =>
      rw [visit_succ, visit_succ]
      have hfold : (dependencies c).foldl (settle path c (visit dependencies fuel (c :: path))) o =
          (dependencies c).foldl (settle path c (visit dependencies fuel' (c :: path))) o := by
        apply List.foldl_ext
        intro o d hd
        unfold settle
        by_cases hmem : d ∈ c :: path
        · rw [if_pos hmem, if_pos hmem]
        · -- the visit of `d` has one place less and one more open class
          rw [if_neg hmem, if_neg hmem]
          have hd : d ∈ classes := hclasses c (hsub List.mem_cons_self) d hd
          rw [ih fuel' (c :: path) d o (by rw [List.length_cons]; omega)
            (by rw [List.length_cons]; omega) (List.nodup_cons.mpr ⟨hmem, hnodup⟩)
            (List.cons_subset.mpr ⟨hd, hsub⟩)]
      rw [hfold]

end EmissionOrder

end Bindery
