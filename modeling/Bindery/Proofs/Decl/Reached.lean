import Bindery.Decl.Validation
import Bindery.Proofs.Computation
import Bindery.Proofs.Decl.Scopes

/-!
# Declarations found from the global namespace

An accepted graph may still have declarations whose parents go round in a circle.  Whatever is
found by walking along members from the global namespace is none of them: following its parents
leads back the way it was found.

## Main definitions

* `DeclGraph.Scoped` — what validation makes sure of about scopes.
* `DeclGraph.Reached g id l` — `id` is found along members, through the scopes `l`.

## Main results

* `scoped_of_validate` — accepted graphs are scoped.
* `Reached.enclosing_eq` — the scopes around what is found are those it was found through.
* `Reached.descendants_subset` — what is below a scope is below the scopes around it.
* `Reached.isStd_of_above` — whatever the standard library is around belongs to it.
-/

namespace Bindery.DeclGraph

variable {g : DeclGraph} {id m p : DeclId} {l : List DeclId}

/-! ### Validation -/

/-- The global namespace is no class and has no parent, and members name the scope that lists
them. -/
structure Scoped (g : DeclGraph) : Prop where
  root : g.parent? DeclGraph.root = none
  rootKind : g.isClass DeclGraph.root = false
  agree : g.MembersAgree

theorem parent?_of_checkMembers : ∀ {ms seen seen' : List DeclId},
    g.checkMembers id seen ms = .ok seen' → ∀ m ∈ ms, g.parent? m = some id
  | [], _, _, _, m, hm => absurd hm List.not_mem_nil
  | n :: rest, seen, seen', h, m, hm => by
    unfold checkMembers at h
    obtain ⟨_, -, h⟩ := Except.bind_eq_ok.mp h
    obtain ⟨-, h⟩ := Except.guard_eq_ok.mp h
    obtain ⟨hparent, h⟩ := Except.guard_eq_ok.mp h
    rcases List.mem_cons.mp hm with rfl | hm
    · exact not_not.mp hparent
    · exact parent?_of_checkMembers h m hm

theorem parent?_of_checkDecls : ∀ {ids seen : List DeclId}, g.checkDecls seen ids = .ok () →
    ∀ id ∈ ids, ∀ m ∈ g.members id, g.parent? m = some id
  | [], _, _, id, hid => absurd hid List.not_mem_nil
  | n :: rest, seen, h, id, hid => by
    unfold checkDecls at h
    obtain ⟨_, hmembers, h⟩ := Except.bind_eq_ok.mp h
    obtain ⟨_, -, h⟩ := Except.bind_eq_ok.mp h
    obtain ⟨_, -, h⟩ := Except.bind_eq_ok.mp h
    rcases List.mem_cons.mp hid with rfl | hid
    · exact parent?_of_checkMembers hmembers
    · exact parent?_of_checkDecls h id hid

/-- Accepted graphs are scoped. -/
theorem scoped_of_validate (h : g.validate = .ok ()) : g.Scoped := by
  unfold validate at h
  obtain ⟨_, hroot, hdecls⟩ := Except.bind_eq_ok.mp h
  have hns : g.parent? root = none ∧ g.isClass root = false := by
    unfold checkRoot at hroot
    split at hroot
    · next hd => simp [parent?, isClass, class?, kind?, hd]
    · cases hroot
  refine ⟨hns.1, hns.2, fun id m hm => ?_⟩
  exact parent?_of_checkDecls hdecls id (List.mem_range.mpr (lt_size_of_mem_members hm)) m hm

/-! ### Walks from the global namespace -/

/-- `id` is found by walking along members from the global namespace, through the scopes `l`,
innermost first. -/
inductive Reached (g : DeclGraph) : DeclId → List DeclId → Prop
  | root : Reached g DeclGraph.root []
  | member {id p : DeclId} {l : List DeclId} :
    Reached g p l → id ∈ g.members p → Reached g id (p :: l)

namespace Reached

theorem climbs (hs : g.Scoped) (h : g.Reached id l) : Climbs g.parent? id l := by
  induction h with
  | root => exact hs.root
  | member _ hmem ih => exact ⟨hs.agree _ _ hmem, ih⟩

theorem lt_size (h : g.Reached id l) : ∀ x ∈ l, x < g.size := by
  induction h with
  | root => exact fun x hx => absurd hx List.not_mem_nil
  | member _ hmem ih => exact List.forall_mem_cons.mpr ⟨lt_size_of_mem_members hmem, ih⟩

/-- The scopes around a declaration are those through which it is found. -/
theorem enclosing_eq (hs : g.Scoped) (h : g.Reached id l) : g.enclosing id = l := by
  have hl := h.climbs hs
  unfold enclosing
  rw [enclosingWithin_of_climbs hl, List.take_of_length_le]
  cases l with
  | nil => exact Nat.zero_le _
  | cons p l => exact (hl.length_lt (lt_size_of_parent? hl.1) h.lt_size).le

/-- Below a scope are its members and what is below them. -/
theorem descendants_eq (hs : g.Scoped) (h : g.Reached id l) :
    g.descendants id = (g.members id).flatMap fun m => m :: g.descendants m := by
  have hcongr := descendantsWithin_congr hs.agree g.size (g.size + 1) id l (h.climbs hs) h.lt_size
    (by omega) (by omega)
  exact hcongr

/-- What is below a declaration is below the scopes around it. -/
theorem descendants_subset (hs : g.Scoped) (h : g.Reached id l) :
    ∀ p ∈ l, g.descendants id ⊆ g.descendants p := by
  induction h with
  | root => exact fun p hp => absurd hp List.not_mem_nil
  | member hreached hmem ih =>
    next id q l =>
    have hparent : g.descendants id ⊆ g.descendants q := by
      rw [hreached.descendants_eq hs]
      intro m hm
      exact List.mem_flatMap.mpr ⟨id, hmem, List.mem_cons_of_mem id hm⟩
    intro p hp
    rcases List.mem_cons.mp hp with rfl | hp
    · exact hparent
    · exact List.Subset.trans hparent (ih p hp)

/-- Of two things around a declaration, one is around the other. -/
theorem above_total {x y : DeclId} (h : g.Reached id l) (hx : x ∈ id :: l) (hy : y ∈ id :: l) :
    (∃ k, g.Reached x k ∧ y ∈ x :: k) ∨ ∃ k, g.Reached y k ∧ x ∈ y :: k := by
  induction h with
  | root =>
    rw [List.mem_singleton] at hx hy
    exact .inl ⟨[], hx ▸ .root, by rw [hx, hy]; exact List.mem_cons_self⟩
  | member hreached hmem ih =>
    rcases List.mem_cons.mp hx with rfl | hxl
    · -- one of the two is the declaration itself, or both are around its scope
      exact .inl ⟨_, .member hreached hmem, hy⟩
    · rcases List.mem_cons.mp hy with rfl | hyl
      · exact .inr ⟨_, .member hreached hmem, hx⟩
      · exact ih hxl hyl

/-! ### Names -/

theorem path_member (hs : g.Scoped) (hp : g.Reached p l) (hm : m ∈ g.members p) :
    g.path m = g.path p ++ [g.name m] := by
  have hparent := hs.agree p m hm
  have hne : m ≠ DeclGraph.root := by
    rintro rfl
    rw [hs.root] at hparent
    cases hparent
  obtain ⟨d, hd, -⟩ := Option.bind_eq_some_iff.mp hparent
  unfold path
  rw [(hp.member hm).enclosing_eq hs, hp.enclosing_eq hs,
    List.takeWhile_cons_of_pos (by simpa using hne),
    List.filterMap_cons_some (b := d.name) (by rw [hd]; rfl), List.reverse_cons]
  unfold name
  rw [hd]

/-- The names of members begin with those of their scopes. -/
theorem fullName_member (hs : g.Scoped) (hp : g.Reached p l) (hm : m ∈ g.members p)
    (hroot : p ≠ DeclGraph.root) : g.fullName m = g.fullName p ++ "::" ++ g.name m := by
  have hne : g.path p ≠ [] := by
    cases hp with
    | root => exact absurd rfl hroot
    | member hq hp =>
      rw [hq.path_member hs hp]
      exact List.append_ne_nil_of_right_ne_nil _ (List.cons_ne_nil _ _)
  unfold fullName
  rw [hp.path_member hs hm]
  split
  · next h => exact absurd h (List.append_ne_nil_of_left_ne_nil hne _)
  · rw [String.intercalate_append_of_ne_nil hne (List.cons_ne_nil _ _)]
    simp [String.append_assoc]

/-- What is in the standard library has its members there as well. -/
theorem isStd_member (hs : g.Scoped) (hp : g.Reached p l) (hm : m ∈ g.members p)
    (hroot : p ≠ DeclGraph.root) (hstd : g.isStd p) : g.isStd m := by
  unfold isStd at hstd ⊢
  dsimp only at hstd ⊢
  rw [hp.fullName_member hs hm hroot]
  rw [Bool.or_eq_true, beq_iff_eq, String.startsWith_string_iff] at hstd ⊢
  refine .inr ?_
  rw [String.toList_append, String.toList_append]
  rcases hstd with h | h
  · rw [h]
    exact ⟨(g.name m).toList, rfl⟩
  · rw [List.append_assoc]
    exact h.trans (List.prefix_append _ _)

/-- Whatever the standard library is around belongs to it. -/
theorem isStd_of_above (hs : g.Scoped) (h : g.Reached id l) :
    ∀ x ∈ l, x ≠ DeclGraph.root → g.isStd x → g.isStd id := by
  induction h with
  | root => exact fun x hx => absurd hx List.not_mem_nil
  | @member _ p _ hp hmem ih =>
    intro x hx hroot hstd
    rcases List.mem_cons.mp hx with rfl | hxl
    · exact hp.isStd_member hs hmem hroot hstd
    · refine hp.isStd_member hs hmem ?_ (ih x hxl hroot hstd)
      -- nothing is above the global namespace
      rintro rfl
      cases hp with
      | root => exact absurd hxl List.not_mem_nil
      | member _ hmem' =>
        have hparent := hs.agree _ _ hmem'
        rw [hs.root] at hparent
        cases hparent

end Reached

end Bindery.DeclGraph
