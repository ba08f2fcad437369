import Bindery.Proofs.Binding.Members

/-!
# Registrations of classes

A class is registered behind the others below its node in the skeleton, and what is registered
below the class are members of it, in the order in which they are bound.  So does a list of
declarations, one after the other.

## Main definitions

* `CodeTree.Registers t nodes ids` — the nodes are registrations of classes of the list.
* `BindingSetup.Filled s t q` — below `q` are registrations of members of its class.
* `BindingSetup.Adds s p ids t t'` — classes of the list have been registered below `p`.

## Main results

* `Adds.trans` — one list of classes after the other.
* `registerClass_grows` — **a class comes behind the others, with its members below it.**
* `register_grows` — so does a declaration outside of classes.
-/

namespace Bindery

open Binding

namespace CodeTree

variable {t t' : CodeTree} {nodes nodes' : List NodeId} {ids ids' : List DeclId}

/-- The nodes are registrations of classes of the list, in its order, though not of all. -/
def Registers (t : CodeTree) (nodes : List NodeId) (ids : List DeclId) : Prop :=
  ∃ ds : List DeclId, ds.Sublist ids ∧ nodes.map t.part? = ds.map fun d => some (.cls d)

namespace Registers

theorem nil (t : CodeTree) (ids : List DeclId) : t.Registers [] ids :=
  ⟨[], List.nil_sublist ids, rfl⟩

theorem append (h : t.Registers nodes ids) (h' : t.Registers nodes' ids') :
    t.Registers (nodes ++ nodes') (ids ++ ids') := by
  obtain ⟨ds, hsub, hmap⟩ := h
  obtain ⟨ds', hsub', hmap'⟩ := h'
  refine ⟨ds ++ ds', hsub.append hsub', ?_⟩
  rw [List.map_append, List.map_append, hmap, hmap']

theorem part_of_mem (h : t.Registers nodes ids) {q : NodeId} (hq : q ∈ nodes) :
    ∃ d ∈ ids, t.part? q = some (.cls d) := by
  obtain ⟨ds, hsub, hmap⟩ := h
  have hmem : t.part? q ∈ ds.map fun d => some (Part.cls d) := hmap ▸ List.mem_map_of_mem hq
  obtain ⟨d, hd, heq⟩ := List.mem_map.mp hmem
  exact ⟨d, hsub.subset hd, heq.symm⟩

/-- Registrations stay what they are. -/
theorem keep (h : t.Registers nodes ids)
    (hkept : ∀ q part, t.part? q = some part → t'.part? q = some part) :
    t'.Registers nodes ids := by
  have hsame : nodes.map t'.part? = nodes.map t.part? := by
    apply List.map_congr_left
    intro q hq
    obtain ⟨d, -, hd⟩ := h.part_of_mem hq
    rw [hd, hkept q _ hd]
  obtain ⟨ds, hsub, hmap⟩ := h
  exact ⟨ds, hsub, hsame.trans hmap⟩

end Registers

end CodeTree

namespace BindingSetup

open CodeTree

variable {s : BindingSetup} {t t' t'' : CodeTree} {p q : NodeId} {ids ids' : List DeclId}

/-- A registration with registrations of members of its class below it, in the order in which the
members are bound. -/
def Filled (s : BindingSetup) (t : CodeTree) (q : NodeId) : Prop :=
  ∃ cls members, t.part? q = some (.cls cls) ∧ s.graph.isClass cls ∧
    s.boundMembers cls = .ok members ∧
    t.Registers (t.parts q) (members.filter s.graph.isClass)

/-- Classes of a list have been registered below `p`, behind what was there, and their members
below them. -/
structure Adds (s : BindingSetup) (p : NodeId) (ids : List DeclId) (t t' : CodeTree) : Prop where
  wellFormed : t'.WellFormed
  kept : ∀ q part, t.part? q = some part → t'.part? q = some part
  under : ∃ l, t'.parts p = t.parts p ++ l ∧ t'.Registers l (ids.filter s.graph.isClass)
  elsewhere : ∀ q, q ≠ p → (t.part? q).isSome ∨ t'.part? q = none → t'.parts q = t.parts q
  filled : ∀ q, t.part? q = none → (t'.part? q).isSome → s.Filled t' q

theorem Filled.keep (h : s.Filled t q)
    (hkept : ∀ q part, t.part? q = some part → t'.part? q = some part)
    (hparts : t'.parts q = t.parts q) : s.Filled t' q := by
  obtain ⟨cls, members, hpart, hclass, hmembers, hregisters⟩ := h
  refine ⟨cls, members, hkept q _ hpart, hclass, hmembers, ?_⟩
  rw [hparts]
  exact hregisters.keep hkept

namespace Adds

theorem isSome_kept (h : s.Adds p ids t t') (hq : (t.part? q).isSome) : (t'.part? q).isSome := by
  obtain ⟨part, hpart⟩ := Option.isSome_iff_exists.mp hq
  rw [h.kept q part hpart]
  rfl

theorem none_before (h : s.Adds p ids t t') (hq : t'.part? q = none) : t.part? q = none := by
  by_contra hne
  have hsome := h.isSome_kept (Option.isSome_iff_ne_none.mpr hne)
  rw [hq] at hsome
  cases hsome

/-- One list of classes after the other. -/
theorem trans (h : s.Adds p ids t t') (h' : s.Adds p ids' t' t'') (hp : (t.part? p).isSome) :
    s.Adds p (ids ++ ids') t t'' where
  wellFormed := h'.wellFormed
  kept q part hq := h'.kept q part (h.kept q part hq)
  under := by
    obtain ⟨l, hparts, hl⟩ := h.under
    obtain ⟨l', hparts', hl'⟩ := h'.under
    refine ⟨l ++ l', ?_, ?_⟩
    · rw [hparts', hparts, List.append_assoc]
    · rw [List.filter_append]
      exact (hl.keep h'.kept).append hl'
  elsewhere q hne hq := by
    rcases hq with hq | hq
    · rw [h'.elsewhere q hne (.inl (h.isSome_kept hq)), h.elsewhere q hne (.inl hq)]
    · rw [h'.elsewhere q hne (.inr hq), h.elsewhere q hne (.inr (h'.none_before hq))]
  filled q hnone hsome := by
    by_cases hq : t'.part? q = none
    · exact h'.filled q hq hsome
    · -- the first list has registered `q`, which is not `p`, so that the second left it alone
      have hq : (t'.part? q).isSome := Option.isSome_iff_ne_none.mpr hq
      have hne : q ≠ p := by
        rintro rfl
        rw [hnone] at hp
        cases hp
      exact (h.filled q hnone hq).keep h'.kept (h'.elsewhere q hne (.inl hq))

/-- A tree with the same skeleton has no class more. -/
theorem of_sameParts (h : t.SameParts t') (hw : t.WellFormed) : s.Adds p ids t t' where
  wellFormed := h.wellFormed hw
  kept q part hq := by rw [h.part, hq]
  under := ⟨[], by rw [h.parts, List.append_nil], Registers.nil t' _⟩
  elsewhere q _ _ := by rw [h.parts]
  filled q hnone hsome := by
    rw [h.part, hnone] at hsome
    cases hsome

/-- A new registration of a class, behind the others, and then members of the class below it. -/
theorem of_placed {cls : DeclId} {registration : ClassNode} {members : List DeclId}
    (h : Placed t p (.cls registration) (some cls) (t.children p) [] t') (hw : t.WellFormed)
    (hp : (t.part? p).isSome) (hclass : s.graph.isClass cls)
    (hmembers : s.boundMembers cls = .ok members)
    (h' : s.Adds t.size members t' t'') : s.Adds p [cls] t t'' := by
  have hself : t'.part? t.size = some (.cls cls) := h.part_self
  have hsize : t.part? t.size = none := part?_size t
  have hne : p ≠ t.size := h.old
  have hkept : ∀ q part, t.part? q = some part → t'.part? q = some part :=
    fun q part hq => h.part_of_some hq
  have hold : ∀ {q}, (t.part? q).isSome → (t'.part? q).isSome := by
    intro q hq
    obtain ⟨part, hpart⟩ := Option.isSome_iff_exists.mp hq
    rw [hkept q part hpart]
    rfl
  refine ⟨h'.wellFormed, fun q part hq => h'.kept q part (hkept q part hq), ?_, ?_, ?_⟩
  · refine ⟨[t.size], ?_, [cls],
      by rw [List.filter_cons_of_pos hclass]; exact List.Sublist.refl _, ?_⟩
    · rw [h'.elsewhere p hne (.inl (hold hp)), h.parts_self hw rfl]
      rfl
    · rw [List.map_singleton, List.map_singleton, h'.kept _ _ hself]
  · intro q hqp hq
    have hqs : q ≠ t.size := by
      rintro rfl
      rcases hq with hq | hq
      · rw [hsize] at hq
        cases hq
      · rw [h'.kept _ _ hself] at hq
        cases hq
    rw [h'.elsewhere q hqs (hq.imp_left hold), h.parts_of_ne hw hqp]
  · intro q hnone hsome
    by_cases hqs : q = t.size
    · subst hqs
      obtain ⟨l, hparts, hl⟩ := h'.under
      rw [h.parts_new, List.nil_append] at hparts
      exact ⟨cls, members, h'.kept _ _ hself, hclass, hmembers, hparts ▸ hl⟩
    · refine h'.filled q ?_ hsome
      rw [h.part, if_neg hqs, hnone]

end Adds

/-! ### Computations that register classes -/

/-- A step that registers classes of the list below `p`. -/
def Grows (s : BindingSetup) (p : NodeId) (ids : List DeclId) (b b' : Binder) : Prop :=
  b.tree.WellFormed → (b.tree.part? p).isSome → s.Adds p ids b.tree b'.tree

theorem Grows.trans {b b' b'' : Binder} (h : s.Grows p ids b b') (h' : s.Grows p ids' b' b'') :
    s.Grows p (ids ++ ids') b b'' := by
  intro hw hp
  have hadds := h hw hp
  exact hadds.trans (h' hadds.wellFormed (hadds.isSome_kept hp)) hp

theorem grows_of_plain {b b' : Binder} (h : Plain b b') : s.Grows p ids b b' :=
  fun hw _ => Adds.of_sameParts h hw

theorem Grows.of_plain_left {b b' b'' : Binder} (h : Plain b b') (h' : s.Grows p ids b' b'') :
    s.Grows p ids b b'' := by
  have hnone : s.Grows p [] b b' := grows_of_plain h
  exact hnone.trans h'

theorem Grows.of_plain_right {b b' b'' : Binder} (h : s.Grows p ids b b') (h' : Plain b' b'') :
    s.Grows p ids b b'' := by
  have hnone : s.Grows p [] b' b'' := grows_of_plain h'
  have hall := h.trans hnone
  rwa [List.append_nil] at hall

theorem grows_of_moves_plain {α : Type} {m : Binding α} (h : Moves Plain m) :
    Moves (s.Grows p ids) m := fun b a b' hrun => grows_of_plain (h b a b' hrun)

/-- One declaration after the other. -/
theorem grows_forM {f : DeclId → Binding PUnit} : ∀ ids : List DeclId,
    (∀ id ∈ ids, Moves (s.Grows p [id]) (f id)) → Moves (s.Grows p ids) (ids.forM f)
  | [], _ => grows_of_moves_plain (Moves.pure _)
  | id :: ids, h => by
    intro b u b'' hrun
    have hcons : (f id >>= fun _ => ids.forM f).run b = .ok (u, b'') := hrun
    obtain ⟨a, b', hid, hrest⟩ := run_bind_eq_ok.mp hcons
    have hfirst := h id List.mem_cons_self b a b' hid
    have hthen := grows_forM ids (fun d hd => h d (List.mem_cons_of_mem id hd)) b' u b'' hrest
    exact hfirst.trans hthen

/-! ### Classes -/

/-- A way to bind classes that registers each below the given node. -/
def GrowsNested (s : BindingSetup) (nested : NodeId → DeclId → ClassDecl → Binding Unit) : Prop :=
  ∀ p id c, s.graph.kind? id = some (.cls c) → Moves (s.Grows p [id]) (nested p id c)

variable {nested : NodeId → DeclId → ClassDecl → Binding Unit}

theorem registerMember_grows (hnested : s.GrowsNested nested) (cls : DeclId) (node : NodeId)
    (id : DeclId) : Moves (s.Grows node [id]) (s.registerMember nested cls node id) := by
  by_cases hclass : s.graph.isClass id
  · obtain ⟨c, hkind⟩ := DeclGraph.isClass_iff.mp hclass
    rw [registerMember_cls hkind]
    exact hnested node id c hkind
  · exact grows_of_moves_plain
      (moves_plain s (some cls) (moves_registerMember hclass fun _ => trivial))

/-- The members of a class come below its registration, in the order in which they are bound. -/
theorem fillClass_grows (hnested : s.GrowsNested nested) {cls : DeclId} {node : NodeId}
    {b b' : Binder} {u : PUnit} (h : (s.fillClass nested cls node).run b = .ok (u, b')) :
    ∃ members, s.boundMembers cls = .ok members ∧ s.Grows node members b b' := by
  obtain ⟨members, found, b₁, b₂, _, _, hmembers, -, hforM, hinherited, hcomplete⟩ := fillClass_ok h
  refine ⟨members, hmembers, ?_⟩
  have hgrows :=
    grows_forM members (fun id _ => registerMember_grows hnested cls node id) _ _ _ hforM
  -- what follows the members leaves the skeleton alone
  have hplain : Plain b₁ b₂ := by
    refine moves_plain s (some cls) ?_ _ _ _ hinherited
    exact Moves.forM _ fun id _ => moves_registerMethod trivial
  have hplain' : Plain b₂ b' :=
    moves_plain s (some cls) (moves_completeClass cls node) _ _ _ hcomplete
  exact (hgrows.of_plain_right hplain).of_plain_right hplain'

/-- **A class is registered behind the others, with its members below it.** -/
theorem registerClass_grows (s : BindingSetup) (depth : Nat) :
    s.GrowsNested (s.registerClass depth) := by
  induction depth with
  | zero => exact fun p id c _ => grows_of_moves_plain (Moves.pure _)
  | succ depth ih =>
    intro p cls c hkind b u b' h
    obtain ⟨registration, b₁, t, b₂, b₃, v, hnode, hplaced, hquiet, hfill, hupdate⟩ :=
      registerClass_ok h
    -- the skeleton changes where the registration is placed and where it is filled
    have hbefore : Plain b b₁ := plain_of_run (classNode_ok s (fun _ _ => True) none hnode).1
    have hnoted : Plain { b₁ with tree := t } b₂ := StepRelation.of_tree_eq hquiet.tree
    obtain ⟨members, hmembers, hgrows⟩ := fillClass_grows ih hfill
    have hafter : Plain b₃ b' := plain_of_run (hupdate (fun _ _ => True) none)
    have hfilled : s.Grows b₁.tree.size members { b₁ with tree := t } b' :=
      (hgrows.of_plain_right hafter).of_plain_left hnoted
    have hregistered : s.Grows p [cls] b₁ b' := by
      intro hw hp
      have hself : (t.part? b₁.tree.size).isSome := by rw [hplaced.part_self]; rfl
      have hclass : s.graph.isClass cls := DeclGraph.isClass_iff.mpr ⟨c, hkind⟩
      exact Adds.of_placed hplaced.toPlaced hw hp hclass hmembers
        (hfilled (hplaced.wellFormed hw) hself)
    exact hregistered.of_plain_left hbefore

/-! ### Declarations outside of classes -/

/-- **A class outside of classes is registered behind the others below the body, and other
declarations leave the skeleton alone.** -/
theorem register_grows (s : BindingSetup) (body : NodeId) (id : DeclId) :
    Moves (s.Grows body [id]) (s.register body id) := by
  by_cases hclass : s.graph.isClass id
  · obtain ⟨c, hkind⟩ := DeclGraph.isClass_iff.mp hclass
    intro b u b' h
    unfold register at h
    obtain ⟨exportable, b₁, hlift, h⟩ := run_bind_eq_ok.mp h
    obtain ⟨-, rfl⟩ := run_lift_missing_eq_ok.mp hlift
    rw [hkind] at h
    refine (?_ : Moves (s.Grows body [id]) _) b u b' h
    split
    · exact registerClass_grows s _ body id c hkind
    · exact grows_of_moves_plain (Moves.pure _)
  · exact grows_of_moves_plain (moves_plain s none (moves_register body hclass))

end BindingSetup

end Bindery
