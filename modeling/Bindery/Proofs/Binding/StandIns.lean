import Bindery.Proofs.Binding.Runs
import Bindery.Proofs.Transform.OverrideOrder

/-!
# Stand-ins in wrapper classes

A wrapper class overrides the functions that are bound as methods of its class and that Python
cannot reach directly: each gets a stand-in there, with its name, its constness and its parameters.
No other member of a wrapper class overrides anything.

## Main definitions

* `DeclGraph.StandsFor` — a node writes a stand-in for a function.
* `BindingSetup.HasStandIn` — the wrapper class of a class has a stand-in for a function.
* `BindingSetup.Overrides` — a node overrides the functions of a signature.
* `BindingSetup.Completed`, `BindingSetup.Completes` — a class has all its stand-ins; a step leaves
  no wrapper class without them.

## Main results

* `hasStandIn_of_registerMethod` — a method that is bound has its stand-in.
* `completes_registerClass` — so has every class that gets a wrapper class when classes are bound.
* `overrides_iff` — **a function is overridden in a wrapper class if and only if a function of its
  signature is bound as a method and stands in.**
-/

namespace Bindery

open Binding CodeTree

/-- The node writes a member with the name, the constness and the parameters of the function, which
so overrides the function if it is virtual. -/
def DeclGraph.StandsFor (g : DeclGraph) (f : DeclId) : NodeKind → Prop
  | .shim n => ∃ c, g.callable? f = some c ∧ n.kind ≠ .protStatic ∧ n.name = g.name f ∧
      n.isConst = c.isConst ∧ n.args.map (·.type) = c.argTypes.map g.spell
  | .transformed n => ∃ c base names returnsVoid, g.callable? f = some c ∧
      n.kind = .override base names c.isConst returnsVoid ∧ n.name = g.name f ∧
      n.code.argList = ", ".intercalate
        ((TransformState.paramsOf c).map (TransformState.paramDeclaration g))
  | _ => False

theorem DeclGraph.map_type_shimArgs (g : DeclGraph) (c : Callable) :
    (g.shimArgs c).map (·.type) = c.argTypes.map g.spell := by
  apply List.ext_getElem
  · simp [shimArgs, Callable.argTypes]
  · intro i h₁ h₂
    simp [shimArgs, Callable.argTypes]

namespace BindingSetup

variable {s : BindingSetup} {b b' b'' : Binder} {cls? : Option DeclId} {cls f : DeclId}
  {node q : NodeId}

/-- The wrapper class of the class has a stand-in for the function. -/
def HasStandIn (s : BindingSetup) (b : Binder) (cls f : DeclId) : Prop :=
  ∃ w n kind, b.wrapper? cls = some w ∧ n ∈ b.tree.children w.node ∧
    b.tree.decl? n = some f ∧ b.tree.kind? n = some kind ∧ s.graph.StandsFor f kind

theorem HasStandIn.later (h : s.HasStandIn b cls f) (hlater : Later b b') :
    s.HasStandIn b' cls f := by
  obtain ⟨w, n, kind, hw, hchild, hdecl, hkind, hstands⟩ := h
  refine ⟨w, n, kind, hlater.wrapper cls w hw, hlater.tree.child _ n hchild, ?_, ?_, hstands⟩
  · rw [hlater.tree.decl n (by rw [hkind]; rfl), hdecl]
  · rcases hlater.tree.kind n kind hkind with hsame | ⟨old, new, rfl, -, -⟩
    · exact hsame
    · exact hstands.elim

/-! ### Methods -/

theorem Describes.callable? {m : Method} (h : s.Describes m) :
    s.graph.callable? m.id = some m.callable := by
  rw [DeclGraph.callable?_eq_some_iff]
  unfold DeclGraph.kind?
  rw [h.decl, ← h.kind]
  rfl

theorem Describes.name {m : Method} (h : s.Describes m) : s.graph.name m.id = m.decl.name := by
  unfold DeclGraph.name
  rw [h.decl]

theorem Describes.standsFor_shim {m : Method} (h : s.Describes m) {kind : ShimKind}
    (hstatic : kind ≠ .protStatic) : s.graph.StandsFor m.id (.shim (m.shim s.graph kind)) :=
  ⟨m.callable, h.callable?, hstatic, h.name.symm, rfl, s.graph.map_type_shimArgs m.callable⟩

/-- A transformed method that stands in has a stand-in. -/
theorem Describes.exists_standIn? {m : Method} (h : s.Describes m) {kind : ShimKind}
    {t : Transformation} (hstatic : kind ≠ .protStatic) (hprot : kind ≠ .prot)
    (ht : Transformation.ofSpecs m.fullName m.callable m.decl.config.transformers = .ok t) :
    ∃ k, m.standIn? s.graph t (.shim kind) = some k ∧ s.graph.StandsFor m.id k := by
  have hoverride : ∀ pythonName, s.graph.StandsFor m.id (.transformed {
      kind := .override m.declaring (", ".intercalate m.callable.argNames) m.callable.isConst
        m.callable.result.isVoid
      name := m.decl.name
      pythonName
      code := t.overrideCode s.graph }) := by
    intro pythonName
    refine ⟨m.callable, _, _, _, h.callable?, rfl, h.name.symm, ?_⟩
    rw [← (ordered_ofSpecs ht).1]
    rfl
  cases kind with
  | protStatic => exact absurd rfl hstatic
  | prot => exact absurd rfl hprot
  | overridable | protOverridable => exact ⟨_, rfl, hoverride m.pythonName⟩
  | _ => exact ⟨_, rfl, h.standsFor_shim fun h => nomatch h⟩

/-- What has been placed in the wrapper class is there. -/
theorem hasStandIn_of_place {kind : NodeKind} {w : WrapperClass} {n : NodeId}
    (hw : b.wrapper? cls = some w) (hstands : s.graph.StandsFor f kind)
    (h : (place w.node kind (some f)).run b = .ok (n, b')) : s.HasStandIn b' cls f := by
  obtain ⟨rfl, t, hadopt, rfl⟩ := place_ok h
  have hplaced := placedAs_of_adopt hadopt
  refine ⟨w, b.tree.size, kind, hw, ?_, (hplaced.decls _).trans (if_pos rfl),
    (hplaced.kinds _).trans (if_pos rfl), hstands⟩
  show b.tree.size ∈ t.children w.node
  rw [hplaced.after]
  exact List.mem_append_right _ List.mem_cons_self

/-- **A method that is bound for a class and stands in has its stand-in in the wrapper class.** -/
theorem hasStandIn_of_registerMethod {u : PUnit} (hf : s.StandsIn f)
    (h : (s.registerMethod cls node f).run b = .ok (u, b')) : s.HasStandIn b' cls f := by
  obtain ⟨d, c, kind, hget, hc, hexposure, hstatic, hprot⟩ := hf
  rcases registerMethod_ok h with ⟨-, hhidden⟩ | ⟨m, b₁, rfl, hm, -, hregister⟩
  · rw [hhidden d c hget hc] at hexposure
    cases hexposure
  obtain rfl : m.decl = d := Option.some.inj (hm.decl.symm.trans hget)
  obtain rfl : m.callable = c := by
    have hkind := hm.kind.symm.trans hc
    cases hkind
    rfl
  rw [hexposure] at hregister
  rcases hregister with ⟨hplain, hregister⟩ | ⟨htransformed, hregister⟩
  · obtain ⟨w, b₂, n, b₃, hwrapper, hplace, hfinish⟩ := registerPlainMethod_ok hregister
    have hw := (run_wrapperOf s.BindsMethod hwrapper).2
    have hlater : Later b₃ b' :=
      moves_later s none (moves_finishPlainMethod hm hplain) _ _ _ hfinish
    exact (hasStandIn_of_place hw (hm.standsFor_shim hstatic) hplace).later hlater
  · obtain ⟨w, b₂, t, v, b₃, b₄, hwrapper, ht, hheaders, hplaced, -, hfinish⟩ :=
      registerTransformedMethod_ok hregister
    have hw := (run_wrapperOf s.BindsMethod hwrapper).2
    have hheaded : Later b₂ b₃ := moves_later s none (moves_addHeaders _ _) _ _ _ hheaders
    obtain ⟨k, hk, hstands⟩ := hm.exists_standIn? hstatic (fun h => htransformed (hprot h)) ht
    obtain ⟨n, hplace⟩ := hplaced k hk
    have hlater : Later b₄ b' :=
      moves_later s none (moves_finishTransformedMethod hm htransformed) _ _ _ hfinish
    exact (hasStandIn_of_place (hheaded.wrapper cls w hw) hstands hplace).later hlater

/-! ### Classes -/

/-- The class has been bound with all that belongs to it: its wrapper class has a stand-in for each
of its methods that stands in. -/
structure Completed (s : BindingSetup) (b : Binder) (cls : DeclId) : Prop where
  members : ∃ members, s.boundMembers cls = .ok members
  inherited : ∃ found, s.inheritedMethods cls = .ok found
  hasStandIn : ∀ f, s.BindsMethod cls f → s.StandsIn f → s.HasStandIn b cls f

theorem Completed.later (h : s.Completed b cls) (hlater : Later b b') : s.Completed b' cls :=
  ⟨h.members, h.inherited, fun f hbinds hstands => (h.hasStandIn f hbinds hstands).later hlater⟩

/-- Every class that has got a wrapper class has been bound with all that belongs to it, unless it
is the one that is being bound. -/
structure Completes (s : BindingSetup) (cls? : Option DeclId) (b b' : Binder) : Prop where
  later : Later b b'
  completed : ∀ cls, cls? ≠ some cls → b.wrapper? cls = none → (b'.wrapper? cls).isSome →
    s.Completed b' cls

/-- Where no class but the one that is being bound has got a wrapper class, nothing is to be
completed. -/
theorem Completes.of_wrapper? (hlater : Later b b')
    (h : ∀ cls, cls? ≠ some cls → b'.wrapper? cls = b.wrapper? cls) : s.Completes cls? b b' := by
  refine ⟨hlater, fun cls hne hnone hsome => ?_⟩
  rw [h cls hne, hnone] at hsome
  cases hsome

instance (cls? : Option DeclId) : RunRelation (s.Completes cls?) where
  quiet hquiet := by
    refine .of_wrapper? (RunRelation.quiet hquiet) fun cls _ => ?_
    unfold Binder.wrapper?
    rw [hquiet.wrappers]
  meet b name := .of_wrapper? (RunRelation.meet b name) fun _ _ => rfl
  trans {b b' b''} h h' := by
    refine ⟨RunRelation.trans h.later h'.later, fun cls hne hnone hsome => ?_⟩
    cases hbetween : b'.wrapper? cls with
    | none => exact h'.completed cls hne hbetween hsome
    | some w => exact (h.completed cls hne hnone (by rw [hbetween]; rfl)).later h'.later

/-- A run for a class gives wrapper classes to no other. -/
theorem wrapper?_of_run {may : DeclId → DeclId → Prop} (h : s.BindRun may cls? b b')
    (hne : cls? ≠ some cls) : b'.wrapper? cls = b.wrapper? cls := by
  induction h with
  | refl => rfl
  | tail _ hstep ih =>
    rw [← ih]
    cases hstep with
    | quiet hquiet =>
      unfold Binder.wrapper?
      rw [hquiet.wrappers]
    | meet | still | place => rfl
    | wrap hcls =>
      have hne' : cls ≠ _ := fun h => hne (hcls.trans (congrArg some h.symm))
      unfold Binder.wrapper?
      rw [List.lookup_cons, beq_eq_false_iff_ne.mpr hne']

theorem completes_of_run {may : DeclId → DeclId → Prop} (h : s.BindRun may cls? b b') :
    s.Completes cls? b b' :=
  .of_wrapper? (later_of_run h) fun _ => wrapper?_of_run h

instance : ModuleRelation s (s.Completes none) where
  bind h := completes_of_run h
  register h := .of_wrapper? (later_of_moduleStep h) fun _ _ => rfl

/-- What is complete up to the class that is being bound is complete with it. -/
theorem Completes.close (h : s.Completes (some cls) b b') (hcls : s.Completed b' cls) :
    s.Completes none b b' := by
  refine ⟨h.later, fun c _ hnone hsome => ?_⟩
  by_cases hc : cls = c
  · exact hc ▸ hcls
  · exact h.completed c (fun h => hc (Option.some.inj h)) hnone hsome

/-- What is bound for a class without what is bound in it leaves other classes as they are. -/
theorem moves_completes {α : Type} {m : Binding α}
    (h : Moves (s.BindRun (fun _ _ => True) cls?) m) : Moves (s.Completes cls?) m :=
  fun b a b' hrun => completes_of_run (h b a b' hrun)

/-- Each method of a class has had its stand-in placed when the class was bound. -/
theorem completed_of_fillClass {members found : List DeclId} {u v : PUnit} {b₁ b₂ : Binder}
    {member : DeclId → Binding PUnit} (hmembers : s.boundMembers cls = .ok members)
    (hfound : s.inheritedMethods cls = .ok found)
    (hmethods : ∀ f, s.graph.isMethod f → member f = s.registerMethod cls node f)
    (hmember : ∀ f ∈ members, Moves (s.Completes (some cls)) (member f))
    (hown : (members.forM member).run b = .ok (u, b₁))
    (hinherited : (found.forM (s.registerMethod cls node)).run b₁ = .ok (v, b₂)) :
    s.Completed b₂ cls := by
  have hmethod : ∀ f ∈ found, Moves (s.Completes (some cls)) (s.registerMethod cls node f) :=
    fun f _ => moves_completes (moves_registerMethod trivial)
  have hagain := Moves.forM found hmethod _ _ _ hinherited
  refine ⟨⟨members, hmembers⟩, ⟨found, hfound⟩, fun f hbinds hstands => ?_⟩
  rcases hbinds with ⟨members', hmembers', hf, hisMethod⟩ | ⟨found', hfound', hf⟩
  · obtain rfl : members = members' := Except.ok.inj (hmembers.symm.trans hmembers')
    obtain ⟨b₃, b₄, w, -, hf, hafter⟩ := exists_run_of_forM hmember hown hf
    rw [hmethods f hisMethod] at hf
    exact (hasStandIn_of_registerMethod hstands hf).later (RunRelation.trans hafter hagain).later
  · obtain rfl : found = found' := Except.ok.inj (hfound.symm.trans hfound')
    obtain ⟨b₃, b₄, w, -, hf, hafter⟩ := exists_run_of_forM hmethod hinherited hf
    exact (hasStandIn_of_registerMethod hstands hf).later hafter.later

/-- **Every class that gets a wrapper class when classes are bound has been bound with all that
belongs to it.** -/
theorem completes_registerClass (s : BindingSetup) : ∀ (depth : Nat) (p : NodeId) (cls : DeclId)
    (c : ClassDecl), Moves (s.Completes none) (s.registerClass depth p cls c)
  | 0, _, _, _ => Moves.pure _
  | depth + 1, p, cls, c => by
    -- the induction is on the depth: nested classes are complete behind their own binding, and `cls`
    -- is left out of what has to be complete until it has been filled
    intro b u b' h
    obtain ⟨registration, b₁, t, b₂, b₃, v, hnode, hplaced, hquiet, hfill, hupdate⟩ :=
      registerClass_ok h
    obtain ⟨hrun, hnamed, hseen⟩ := classNode_ok s s.BindsMethod none hnode
    have hregistered : s.Completes none b₁ { b₁ with tree := t } :=
      ModuleRelation.register (.register hplaced hnamed hseen)
    have hnoted : s.Completes none { b₁ with tree := t } b₂ := RunRelation.quiet hquiet
    obtain ⟨members, found, b₄, b₅, _, _, hmembers, hfound, hown, hinherited, hcomplete⟩ :=
      fillClass_ok hfill
    have hmember : ∀ id ∈ members, Moves (s.Completes (some cls)) (s.registerMember
        (fun p id c => s.registerClass depth p id c) cls b₁.tree.size id) := by
      intro id _
      by_cases hclass : s.graph.isClass id
      · obtain ⟨c', hkind⟩ := DeclGraph.isClass_iff.mp hclass
        rw [registerMember_cls hkind]
        intro b u b' hnested
        have hnone := s.completes_registerClass depth _ id c' b u b' hnested
        exact ⟨hnone.later, fun c _ => hnone.completed c fun h => nomatch h⟩
      · exact moves_completes (moves_registerMember hclass fun _ => trivial)
    have hmethod : ∀ id ∈ found, Moves (s.Completes (some cls))
        (s.registerMethod cls b₁.tree.size id) :=
      fun id _ => moves_completes (moves_registerMethod trivial)
    have hbound := Moves.forM members hmember _ _ _ hown
    have hagain := Moves.forM found hmethod _ _ _ hinherited
    have hcompleted : s.Completes (some cls) b₅ b₃ :=
      moves_completes (moves_completeClass cls _) _ _ _ hcomplete
    have hstood : s.Completed b₃ cls :=
      (completed_of_fillClass hmembers hfound (fun f hf => registerMember_of_isMethod hf) hmember
        hown hinherited).later hcompleted.later
    have hfilled : s.Completes none b₂ b₃ :=
      (RunRelation.trans (RunRelation.trans hbound hagain) hcompleted).close hstood
    have hbefore : s.Completes none b b₂ :=
      RunRelation.trans (RunRelation.trans (completes_of_run hrun) hregistered) hnoted
    exact RunRelation.trans (RunRelation.trans hbefore hfilled)
      (completes_of_run (hupdate s.BindsMethod none))

/-- Every class that has a wrapper class in a module has been bound with all that belongs to it. -/
theorem bind_completed {ids : List DeclId} (h : s.bind ids = .ok b)
    (hcls : (b.wrapper? cls).isSome) : s.Completed b cls := by
  obtain ⟨t, body, u, -, -, hrun⟩ := bind_ok h
  have hcompletes : s.Completes none { tree := t } b :=
    moves_bindAll body ids s.completes_registerClass _ _ _ hrun
  exact hcompletes.completed cls (fun h => nomatch h) rfl hcls

/-! ### What is overridden in a wrapper class -/

/-- The node overrides the functions with the signature of `f`: it is made for one of them, and has
its name, its constness and its parameters. -/
def Overrides (s : BindingSetup) (t : CodeTree) (n : NodeId) (f : DeclId) : Prop :=
  ∃ h kind, t.decl? n = some h ∧ s.graph.sameSignature h f ∧ t.kind? n = some kind ∧
    s.graph.StandsFor h kind

/-- A stand-in is in a wrapper class for whose class its function is bound as a method. -/
theorem Informed.standsHere {n : NodeId} {kind : NodeKind} (h : s.Informed b)
    (hf : b.tree.decl? n = some f) (hkind : b.tree.kind? n = some kind)
    (hstands : s.graph.StandsFor f kind) : s.StandsHere b n f ∧ s.StandsIn f := by
  have hknown := h.known n kind hkind
  cases kind with
  | shim shim =>
    obtain ⟨f', hf', hhere, hstatic⟩ := hknown
    obtain rfl : f = f' := Option.some.inj (hf.symm.trans hf')
    obtain ⟨c, -, hnot, -⟩ := hstands
    exact ⟨hhere, hstatic.resolve_left hnot⟩
  | transformed t =>
    obtain ⟨c, base, names, returnsVoid, -, hoverride, -⟩ := hstands
    obtain ⟨kind, name, pythonName, code⟩ := t
    cases hoverride
    obtain ⟨f', hf', hhere, hstandsIn⟩ := hknown
    obtain rfl : f = f' := Option.some.inj (hf.symm.trans hf')
    exact ⟨hhere, hstandsIn⟩
  | _ => exact hstands.elim

/-- A function is overridden in a wrapper class if and only if a function of its signature is bound
as a method and stands in. -/
theorem overrides_iff {ids : List DeclId} {w : WrapperNode} (h : s.bind ids = .ok b)
    (hq : b.tree.kind? q = some (.wrapper w)) (hcls : b.tree.decl? q = some cls) :
    (∃ n ∈ b.tree.children q, s.Overrides b.tree n f) ↔
      ∃ m, s.BindsMethod cls m ∧ s.graph.sameSignature m f ∧ s.StandsIn m := by
  have hinformed := bind_informed h
  obtain ⟨cls', name, hdecl, hw⟩ := hinformed.known q _ hq
  obtain rfl : cls = cls' := Option.some.inj (hcls.symm.trans hdecl)
  constructor
  · rintro ⟨n, hn, m, kind, hm, hsame, hkind, hstands⟩
    obtain ⟨⟨c, v, hv, hchild, hbinds⟩, hstandsIn⟩ := hinformed.standsHere hm hkind hstands
    -- the wrapper class of the stand-in is this one, of which it is a child, too
    have hparent := (hinformed.wellFormed.child v.node n).mp hchild
    rw [(hinformed.wellFormed.child q n).mp hn] at hparent
    obtain rfl : q = v.node := Option.some.inj hparent
    obtain rfl : cls = c := Option.some.inj (hcls.symm.trans (hinformed.wrapper c v hv).1)
    exact ⟨m, hbinds, hsame, hstandsIn⟩
  · rintro ⟨m, hbinds, hsame, hstandsIn⟩
    have hcompleted : s.Completed b cls := bind_completed h (by rw [hw]; rfl)
    obtain ⟨v, n, kind, hv, hchild, hm, hkind, hstands⟩ := hcompleted.hasStandIn m hbinds hstandsIn
    obtain rfl : (⟨q, name⟩ : WrapperClass) = v := Option.some.inj (hw.symm.trans hv)
    exact ⟨n, hchild, m, kind, hm, hsame, hkind, hstands⟩

end BindingSetup

end Bindery
