import Bindery.Proofs.Binding.Inherited
import Bindery.Proofs.Binding.Members

/-!
# What is known of the nodes of a module

A whole module is bound by steps of two kinds: steps for a class or for none, and registrations of
classes that are placed.  Each leaves what was there as it was and says something about the node
that it adds, so that in the end something is known of every node.

## Main definitions

* `BindingSetup.BindsMethod` — the functions that are bound as methods of a class.
* `BindingSetup.ModuleStep`, `BindingSetup.ModuleRun` — steps of the binding of a module, and runs.
* `BindingSetup.Known`, `BindingSetup.Informed` — what is known of a node, and of all nodes.
* `ModuleRelation s R` — `R` holds of what a module adds to the classes bound in it.

## Main results

* `Informed.step`, `Informed.run` — something is known of each new node, so of all in the end.
* `moves_registerClass`, `bind_run` — **a class, and a module, is bound by a run.**
* `bind_informed` — something is known of every node of a module.
-/

namespace Bindery

open Binding CodeTree

namespace BindingSetup

variable {s : BindingSetup} {b b' : Binder} {cls? : Option DeclId}

/-- The function is bound as a method of the class: it is one of the members that are bound with
the class, or one of the functions of its bases that are bound again. -/
def BindsMethod (s : BindingSetup) (cls f : DeclId) : Prop :=
  (∃ members, s.boundMembers cls = .ok members ∧ f ∈ members ∧ s.graph.isMethod f) ∨
    ∃ found, s.inheritedMethods cls = .ok found ∧ f ∈ found

/-! ### Steps of a module -/

/-- A step of the binding of a module. -/
inductive ModuleStep (s : BindingSetup) : Binder → Binder → Prop
  | bind {b b' : Binder} {cls? : Option DeclId} : s.BindStep s.BindsMethod cls? b b' →
      ModuleStep s b b'
  | register {b : Binder} {t : CodeTree} {p : NodeId} {c : ClassNode} {cls : DeclId}
      {front back : List NodeId} : PlacedAs b.tree p (.cls c) (some cls) front back t →
      s.Named b cls c.pythonName →
      DeclGraph.withoutRoot (s.graph.fullName cls) ∈ b.mangler.seen →
      ModuleStep s b { b with tree := t }

/-- A run of steps. -/
def ModuleRun (s : BindingSetup) : Binder → Binder → Prop := Relation.ReflTransGen s.ModuleStep

theorem BindRun.moduleRun (h : s.BindRun s.BindsMethod cls? b b') : s.ModuleRun b b' :=
  Relation.ReflTransGen.mono (fun _ _ => ModuleStep.bind) _ _ h

theorem later_of_moduleStep (h : s.ModuleStep b b') : Later b b' := by
  cases h with
  | bind h => exact later_of_step h
  | register h _ _ => exact .of_tree h.grown

/-! ### What is known of nodes -/

/-- The node is a member of the wrapper class of a class, made for a function that is bound as a
method of the class. -/
def StandsHere (s : BindingSetup) (b : Binder) (n : NodeId) (f : DeclId) : Prop :=
  ∃ cls w, b.wrapper? cls = some w ∧ n ∈ b.tree.children w.node ∧ s.BindsMethod cls f

/-- What is known of a node that writes this. -/
def Known (s : BindingSetup) (b : Binder) (n : NodeId) : NodeKind → Prop
  | .module _ | .moduleBody _ => True
  | .cls c => ∃ cls, b.tree.decl? n = some cls ∧ s.Named b cls c.pythonName ∧
      DeclGraph.withoutRoot (s.graph.fullName cls) ∈ b.mangler.seen
  | .wrapper _ => ∃ cls name, b.tree.decl? n = some cls ∧ b.wrapper? cls = some ⟨n, name⟩
  | kind => s.Fits (s.StandsHere b n) b (b.tree.decl? n) kind

theorem Known.of_fits {n : NodeId} {kind : NodeKind}
    (h : s.Fits (s.StandsHere b n) b (b.tree.decl? n) kind) : s.Known b n kind := by
  cases kind with
  | module | moduleBody | cls | wrapper => exact h.elim
  | _ => exact h

/-- What is known of a node stays known. -/
theorem Known.later {n : NodeId} {kind kind' : NodeKind} (h : s.Known b n kind)
    (hlater : Later b b') (hkind : b.tree.kind? n = some kind)
    (hkind' : b'.tree.kind? n = some kind') : s.Known b' n kind' := by
  have hdecl : b'.tree.decl? n = b.tree.decl? n := hlater.tree.decl n (by rw [hkind]; rfl)
  -- nothing changes but registrations of classes, which keep their names
  rcases hlater.tree.kind n kind hkind with hsame | ⟨old, new, rfl, hnew, hname⟩
  · obtain rfl : kind' = kind := Option.some.inj (hkind'.symm.trans hsame)
    have hfits : s.Fits (s.StandsHere b n) b (b.tree.decl? n) kind' → s.Known b' n kind' := by
      intro hfits
      rw [← hdecl] at hfits
      refine .of_fits (hfits.mono (fun f hf => ?_) hlater.seen)
      obtain ⟨cls, w, hw, hchild, hbinds⟩ := hf
      exact ⟨cls, w, hlater.wrapper cls w hw, hlater.tree.child _ n hchild, hbinds⟩
    cases kind' with
    | module | moduleBody => trivial
    | cls c =>
      obtain ⟨cls, hcls, hnamed, hseen⟩ := h
      exact ⟨cls, hdecl.trans hcls, hnamed.mono hlater.seen, hlater.seen hseen⟩
    | wrapper w =>
      obtain ⟨cls, name, hcls, hw⟩ := h
      exact ⟨cls, name, hdecl.trans hcls, hlater.wrapper cls _ hw⟩
    | _ => exact hfits h
  · obtain rfl : kind' = .cls new := Option.some.inj (hkind'.symm.trans hnew)
    obtain ⟨cls, hcls, hnamed, hseen⟩ := h
    exact ⟨cls, hdecl.trans hcls, hname ▸ hnamed.mono hlater.seen, hlater.seen hseen⟩

/-- Something is known of all nodes, and the wrapper classes that are noted are in the tree. -/
structure Informed (s : BindingSetup) (b : Binder) : Prop where
  wellFormed : b.tree.WellFormed
  known : ∀ n kind, b.tree.kind? n = some kind → s.Known b n kind
  wrapper : ∀ cls w, b.wrapper? cls = some w →
    b.tree.decl? w.node = some cls ∧ ∃ k, b.tree.kind? w.node = some (.wrapper k)

/-- It suffices to know something of what is new. -/
theorem Informed.later (h : s.Informed b) (hlater : Later b b')
    (hnew : ∀ n kind, b.tree.kind? n = none → b'.tree.kind? n = some kind → s.Known b' n kind)
    (hwrapper : ∀ cls w, b.wrapper? cls = none → b'.wrapper? cls = some w →
      b'.tree.decl? w.node = some cls ∧ ∃ k, b'.tree.kind? w.node = some (.wrapper k)) :
    s.Informed b' where
  wellFormed := hlater.tree.wellFormed h.wellFormed
  known n kind hkind := by
    cases hold : b.tree.kind? n with
    | none => exact hnew n kind hold hkind
    | some old => exact (h.known n old hold).later hlater hold hkind
  wrapper cls w hw := by
    cases hold : b.wrapper? cls with
    | none => exact hwrapper cls w hold hw
    | some v =>
      obtain rfl : v = w := Option.some.inj ((hlater.wrapper cls v hold).symm.trans hw)
      obtain ⟨hdecl, k, hk⟩ := h.wrapper cls v hold
      rw [hlater.tree.decl _ (by rw [hk]; rfl)]
      refine ⟨hdecl, ?_⟩
      rcases hlater.tree.kind _ _ hk with hk | ⟨old, new, hcls, -, -⟩
      · exact ⟨k, hk⟩
      · cases hcls

/-- Nothing new is known where no node comes and no wrapper class. -/
theorem Informed.of_kind? (h : s.Informed b) (hlater : Later b b')
    (hkind : ∀ n, b.tree.kind? n = none → b'.tree.kind? n = none)
    (hwrappers : b'.wrappers = b.wrappers) : s.Informed b' := by
  refine h.later hlater (fun n kind hold hnew => ?_) fun cls w hold hnew => ?_
  · rw [hkind n hold] at hnew
    cases hnew
  · unfold Binder.wrapper? at hold hnew
    rw [hwrappers, hold] at hnew
    cases hnew

/-- What is known of the node that a step places is known of all that is new. -/
theorem Informed.of_placedAs {t : CodeTree} {p : NodeId} {kind : NodeKind} {decl : Option DeclId}
    {front back : List NodeId} (h : s.Informed b) (hlater : Later b b') (ht : b'.tree = t)
    (hplaced : PlacedAs b.tree p kind decl front back t)
    (hknown : s.Known b' b.tree.size kind)
    (hwrapper : ∀ cls w, b.wrapper? cls = none → b'.wrapper? cls = some w →
      b'.tree.decl? w.node = some cls ∧ ∃ k, b'.tree.kind? w.node = some (.wrapper k)) :
    s.Informed b' := by
  refine h.later hlater (fun n k hold hnew => ?_) hwrapper
  rw [ht, hplaced.kinds] at hnew
  split at hnew
  · next hn =>
    cases hnew
    exact hn ▸ hknown
  · rw [hold] at hnew
    cases hnew

theorem Informed.step (h : s.Informed b) (hstep : s.ModuleStep b b') : s.Informed b' := by
  have hlater := later_of_moduleStep hstep
  -- only steps that place nodes bring something of which nothing has been known yet, and only a
  -- wrapper class is noted as one
  have hnone : ∀ cls w, b.wrapper? cls = none → b.wrapper? cls = some w → False := by
    intro cls w hold hnew
    rw [hold] at hnew
    cases hnew
  cases hstep with
  | register hplaced hnamed hseen =>
    refine h.of_placedAs hlater rfl hplaced ⟨_, ?_, hnamed, hseen⟩
      fun cls w hold hnew => (hnone cls w hold hnew).elim
    exact (hplaced.decls _).trans (if_pos rfl)
  | bind hstep =>
    cases hstep with
    | quiet hquiet => exact h.of_kind? hlater (fun n hn => hquiet.tree ▸ hn) hquiet.wrappers
    | meet => exact h.of_kind? hlater (fun _ => id) rfl
    | still hstill =>
      refine h.of_kind? hlater (fun n hn => ?_) rfl
      rcases hstill.kind n with hk | ⟨old, new, hold, -⟩
      · exact hk.trans hn
      · rw [hn] at hold
        cases hold
    | place hplaced hfits =>
      refine h.of_placedAs hlater rfl hplaced (.of_fits ?_)
        fun cls w hold hnew => (hnone cls w hold hnew).elim
      rw [hplaced.decls, if_pos rfl]
      refine hfits.mono (fun f hf => ?_) (List.Subset.refl _)
      obtain ⟨cls, w, -, hw, rfl, hbinds⟩ := hf
      exact ⟨cls, w, hw, hplaced.after ▸ by simp, hbinds⟩
    | @wrap t p cls name _ _ hcls hold hplaced =>
      have hself : List.lookup cls ((cls, (⟨b.tree.size, name⟩ : WrapperClass)) :: b.wrappers) =
        some ⟨b.tree.size, name⟩ := List.lookup_cons_self
      have hdecl : t.decl? b.tree.size = some cls := (hplaced.decls _).trans (if_pos rfl)
      refine h.of_placedAs hlater rfl hplaced ⟨cls, name, hdecl, hself⟩ fun cls' w hold' hnew => ?_
      by_cases hne : cls' = cls
      · subst hne
        obtain rfl : (⟨b.tree.size, name⟩ : WrapperClass) = w :=
          Option.some.inj (hself.symm.trans hnew)
        exact ⟨hdecl, _, (hplaced.kinds _).trans (if_pos rfl)⟩
      · unfold Binder.wrapper? at hnew hold'
        rw [List.lookup_cons, beq_eq_false_iff_ne.mpr hne] at hnew
        exact (hnone cls' w hold' hnew).elim

/-- If something is known of all nodes before a run, so it is behind it. -/
theorem Informed.run (h : s.Informed b) (hrun : s.ModuleRun b b') : s.Informed b' := by
  induction hrun with
  | refl => exact h
  | tail _ hstep ih => exact ih.step hstep

/-- In the tree of a module that nothing has been bound in, all is known. -/
theorem informed_ofModule {name nspace : String} {license : Option String} {t : CodeTree}
    (h : CodeTree.ofModule name license nspace = .ok t) : s.Informed { tree := t } := by
  have hwellFormed : t.WellFormed := by
    obtain ⟨t₀, ht₀, hlast⟩ := ofModule_ok (wellFormed_empty.create _ _)
      (fun _ ht happend => (append_ok happend).wellFormed ht) h
    exact (append_ok hlast).wellFormed ht₀
  refine ⟨hwellFormed, fun n kind hkind => ?_, fun cls w hw => (nomatch hw)⟩
  rcases kind?_ofModule h hkind with rfl | hpreamble | rfl
  · trivial
  · cases kind with
    | license | «include» | namespaceAlias => trivial
    | _ => cases hpreamble
  · trivial

/-! ### The binding of a module -/

end BindingSetup

/-- The relation holds of what a module adds to the classes that are bound in it. -/
class ModuleRelation (s : BindingSetup) (R : Binder → Binder → Prop) : Prop
    extends RunRelation R where
  bind : ∀ {b b'}, s.BindRun s.BindsMethod none b b' → R b b'
  register : ∀ {b t}, s.ModuleStep b { b with tree := t } → R b { b with tree := t }

namespace BindingSetup

variable {s : BindingSetup} {b b' : Binder} {cls? : Option DeclId}

instance : ModuleRelation s s.ModuleRun where
  quiet h := (RunRelation.quiet h : s.BindRun s.BindsMethod none _ _).moduleRun
  meet b name := (RunRelation.meet b name : s.BindRun s.BindsMethod none _ _).moduleRun
  trans := Relation.ReflTransGen.trans
  bind h := h.moduleRun
  register h := .single h

theorem moves_moduleRun {α : Type} {m : Binding α} (h : Moves (s.BindRun s.BindsMethod cls?) m) :
    Moves s.ModuleRun m := fun b a b' hrun => (h b a b' hrun).moduleRun

/-- A class is bound by a run. -/
theorem moves_registerClass (s : BindingSetup) : ∀ (depth : Nat) (p : NodeId) (cls : DeclId)
    (c : ClassDecl), Moves s.ModuleRun (s.registerClass depth p cls c)
  | 0, _, _, _ => Moves.pure _
  | depth + 1, p, cls, c => by
    intro b u b' h
    obtain ⟨registration, b₁, t, b₂, b₃, v, hnode, hplaced, hquiet, hfill, hupdate⟩ :=
      registerClass_ok h
    obtain ⟨hrun, hnamed, hseen⟩ := classNode_ok s s.BindsMethod none hnode
    have hregistered : s.ModuleRun b₁ { b₁ with tree := t } :=
      .single (.register hplaced hnamed hseen)
    have hnoted : s.ModuleRun { b₁ with tree := t } b₂ := RunRelation.quiet hquiet
    obtain ⟨members, found, b₄, b₅, _, _, hmembers, hfound, hown, hinherited, hcomplete⟩ :=
      fillClass_ok hfill
    have hbound : s.ModuleRun b₂ b₄ := by
      refine Moves.forM members (fun id hid => ?_) _ _ _ hown
      by_cases hclass : s.graph.isClass id
      · obtain ⟨c', hkind⟩ := DeclGraph.isClass_iff.mp hclass
        rw [registerMember_cls hkind]
        exact s.moves_registerClass depth _ id c'
      · exact moves_moduleRun (moves_registerMember hclass fun hmethod =>
          .inl ⟨members, hmembers, hid, hmethod⟩)
    have hagain : s.ModuleRun b₄ b₅ := by
      refine Moves.forM found (fun id hid => ?_) _ _ _ hinherited
      exact moves_moduleRun (moves_registerMethod (.inr ⟨found, hfound, hid⟩))
    have hcompleted : s.ModuleRun b₅ b₃ :=
      moves_moduleRun (moves_completeClass cls _) _ _ _ hcomplete
    have hfilled : s.ModuleRun b₂ b₃ := (hbound.trans hagain).trans hcompleted
    have hupdated : s.ModuleRun b₃ b' := (hupdate s.BindsMethod none).moduleRun
    exact hrun.moduleRun.trans (hregistered.trans (hnoted.trans (hfilled.trans hupdated)))

section

variable {R : Binder → Binder → Prop} [ModuleRelation s R]

theorem moves_registerContainer (body : NodeId) (position : Nat) (fullName : String) (id : DeclId)
    (kind : ContainerKind) : Moves R (s.registerContainer body position fullName id kind) := by
  intro b u b' h
  unfold registerContainer at h
  obtain ⟨pythonName, b₁, hname, h⟩ := run_bind_eq_ok.mp h
  obtain ⟨hrun, hnamed⟩ := run_pythonName s.BindsMethod none hname
  obtain ⟨exposer, b₂, hexposer, h⟩ := run_bind_eq_ok.mp h
  obtain ⟨-, rfl⟩ := run_identifier hexposer
  have hmet := ModuleRelation.bind (R := R)
    (hrun.tail (.meet b₁ (DeclGraph.withoutRoot (s.graph.fullName id))))
  obtain ⟨node, b₃, hplace, h⟩ := run_bind_eq_ok.mp h
  obtain ⟨rfl, t, hadopt, rfl⟩ := placeAt_ok hplace
  have hregistered := ModuleRelation.register (R := R) (ModuleStep.register
    (placedAs_of_adoptAt hadopt) (hnamed.mono (Text.Mangler.seen_subset_add _ _))
    (Text.Mangler.mem_seen_add _ _))
  refine RunRelation.trans hmet (RunRelation.trans hregistered (ModuleRelation.bind (s := s) ?_))
  refine (?_ : Moves (s.BindRun s.BindsMethod none) _) _ _ _ h
  refine (moves_place ?_).bind fun _ => (moves_addHeaders _ _).bind fun _ => moves_markExported id
  exact fun _ => trivial

/-- Whatever a relation holds of when classes are bound, it holds of when a module is bound. -/
theorem moves_bindAll (body : NodeId) (ids : List DeclId)
    (hclass : ∀ depth p cls c, Moves R (s.registerClass depth p cls c)) :
    Moves R (s.bindAll body ids) := by
  intro b u b' h
  obtain ⟨b₁, b₂, v, w, hregister, hcontainers, hinclude⟩ := bindAll_ok h
  have hbound : R b b₁ := by
    refine Moves.forM ids (fun id _ => ?_) _ _ _ hregister
    by_cases hkind : s.graph.isClass id
    · obtain ⟨c, hkind⟩ := DeclGraph.isClass_iff.mp hkind
      unfold register
      refine (Moves.lift_missing _).bind fun exportable => ?_
      rw [hkind]
      split
      · exact hclass _ body id c
      · exact Moves.pure _
    · exact fun b a b' hrun => ModuleRelation.bind (moves_register body hkind b a b' hrun)
  have hcontained : R b₁ b₂ := by
    unfold registerContainers at hcontainers
    refine (Moves.get.bind fun b => ?_ : Moves R _) _ _ _ hcontainers
    exact Moves.forM _ fun _ _ => moves_registerContainer _ _ _ _ _
  exact RunRelation.trans (RunRelation.trans hbound hcontained)
    (ModuleRelation.bind (moves_includeHeaders _ _ _ hinclude))

end

/-- **A module is bound by a run**, which starts with the tree of a module. -/
theorem bind_run {ids : List DeclId} {b : Binder} (h : s.bind ids = .ok b) :
    ∃ t, CodeTree.ofModule s.options.name s.options.license s.options.bindingNamespace = .ok t ∧
      s.ModuleRun { tree := t } b := by
  obtain ⟨t, body, u, hmodule, -, hrun⟩ := bind_ok h
  exact ⟨t, hmodule, moves_bindAll body ids s.moves_registerClass _ _ _ hrun⟩

/-- **Something is known of every node of a module.** -/
theorem bind_informed {ids : List DeclId} {b : Binder} (h : s.bind ids = .ok b) : s.Informed b := by
  obtain ⟨t, hmodule, hrun⟩ := bind_run h
  exact (informed_ofModule hmodule).run hrun

end BindingSetup

end Bindery
