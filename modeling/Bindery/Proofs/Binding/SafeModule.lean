import Bindery.Proofs.Binding.ModuleTree
import Bindery.Proofs.Binding.SafeMembers

/-!
# Safe bindings of classes and modules

In a graph whose ids exist a class is bound with everything in it, and so is a module: no edit of
the tree is refused and no declaration is missed.

## Main definitions

* `BindingSetup.SafeNested` — the classes in a class are bound safely.

## Main results

* `safe_registerMember`, `safe_fillClass`, `safe_registerClass` — **a class is bound, unless
  transformers fail**, by induction on the depth of the classes in it.
* `safe_registerContainers`, `safe_includeHeaders` — what comes behind all declarations.
* `bind_safe` — **the binding of a list of declarations stops for one reason only.**
-/

namespace Bindery.BindingSetup

open Binding

variable {s : BindingSetup} {b : Binder} {id cls : DeclId} {node parent : NodeId} {c : ClassDecl}
  {nested : NodeId → DeclId → ClassDecl → Binding Unit}

/-! ### Questions about classes -/

theorem exists_boundBases (hg : s.graph.Closed) (hcls : s.graph.kind? cls = some (.cls c)) :
    ∃ bases, s.boundBases c = .ok bases := by
  refine Except.exists_bind (Except.exists_filterM fun base hbase => ?_) fun _ _ => ⟨_, rfl⟩
  split
  · exact ⟨false, rfl⟩
  · exact exists_isExportable
      (hg.lt_size hcls (List.mem_append_left _ (List.mem_map_of_mem hbase)))

theorem exists_boundMembers (hg : s.graph.Closed) (cls : DeclId) :
    ∃ members, s.boundMembers cls = .ok members := by
  refine Except.exists_bind (hg.exists_candidateMembers cls) fun offered hoffered => ?_
  have hlt : ∀ m ∈ offered, m < s.graph.size :=
    fun m hm => hg.member ((Except.mem_filterM hoffered).mp hm).1
  refine Except.exists_bind (Except.exists_filterM fun m hm => exists_isExportable (hlt m hm))
    fun exportable hexportable => ?_
  refine Except.exists_bind (DeclGraph.exists_order fun m hm => ?_) fun _ _ => ⟨_, rfl⟩
  exact hlt m ((Except.mem_filterM hexportable).mp hm).1

/-- The functions of its bases that are bound for a class are methods. -/
theorem exists_inheritedMethods (cls : DeclId) :
    ∃ found, s.inheritedMethods cls = .ok found ∧ ∀ f ∈ found, s.graph.isMethod f := by
  unfold inheritedMethods
  refine Except.exists_foldlM (P := fun found => ∀ f ∈ found, s.graph.isMethod f)
    (fun f hf => nomatch hf) fun found p hp hfound => ?_
  obtain ⟨id, c⟩ := p
  obtain ⟨hp, hoffered⟩ := List.mem_filter.mp hp
  obtain ⟨base, -, hp⟩ := List.mem_flatMap.mp hp
  have hc : s.graph.callable? id = some c := (DeclGraph.mem_callables.mp hp).2
  have hmethod : s.graph.isMethod id := by
    refine DeclGraph.isMethod_iff.mpr ⟨c, hc, ?_⟩
    simp only [Bool.and_eq_true, beq_iff_eq] at hoffered
    unfold Callable.isMethod
    rw [hoffered.1]
  obtain ⟨exportable, hexportable⟩ := exists_isExportable (DeclGraph.lt_size_of_callable? hc)
  have hstep : ∃ found', (do
      unless ← s.isExportable id do return found
      return if ((s.graph.callables cls).map (·.1) ++ found).any (s.graph.sameSignature · id)
        then found else found ++ [id] : Except MissingDecl (List DeclId)) = .ok found' ∧
      (found' = found ∨ found' = found ++ [id]) := by
    rw [hexportable]
    cases exportable with
    | false => exact ⟨found, rfl, .inl rfl⟩
    | true => exact ⟨_, rfl, ite_eq_or_eq _ _ _⟩
  obtain ⟨found', hrun, hfound'⟩ := hstep
  refine ⟨found', hrun, fun f hf => ?_⟩
  rcases hfound' with rfl | rfl
  · exact hfound f hf
  · rcases List.mem_append.mp hf with hf | hf
    · exact hfound f hf
    · exact List.mem_singleton.mp hf ▸ hmethod

theorem safe_classNode (hg : s.graph.Closed) (hb : b.Ready)
    (hcls : s.graph.kind? cls = some (.cls c)) :
    Safe s.graph (s.classNode cls c) b fun _ _ => True := by
  have hlt := DeclGraph.lt_size_of_kind? hcls
  unfold classNode
  refine (Safe.lift_missing hb (exists_boundBases hg hcls)).bind fun bases b₁ h₁ _ => ?_
  refine (safe_pythonName h₁.ready hlt).bind fun name b₂ h₂ _ => ?_
  refine (safe_exposer h₂.ready cls).bind fun exposer b₃ h₃ _ => ?_
  refine (Safe.lift_missing h₃.ready (hg.exists_isNoncopyable hlt)).bind fun _ b₄ h₄ _ => ?_
  exact Safe.pure h₄.ready trivial

/-! ### Classes -/

/-- The classes that are members of a class are bound safely. -/
def SafeNested (s : BindingSetup) (nested : NodeId → DeclId → ClassDecl → Binding Unit) : Prop :=
  ∀ (b : Binder) (p : NodeId) (id : DeclId) (c : ClassDecl), b.Ready → b.tree.hasChildList p →
    s.graph.kind? id = some (.cls c) → Safe s.graph (nested p id c) b fun _ _ => True

theorem safe_registerMember (hnested : s.SafeNested nested) (hb : b.Ready)
    (hnode : b.tree.hasChildList node) (cls id : DeclId) :
    Safe s.graph (s.registerMember nested cls node id) b fun _ _ => True := by
  unfold registerMember
  split
  · next c hkind => exact hnested b node id c hb hnode hkind
  · next values hkind => exact safe_registerEnum hb hnode (DeclGraph.lt_size_of_kind? hkind) values
  · next v hkind =>
    exact safe_registerMemberVariable hb hnode (DeclGraph.lt_size_of_kind? hkind) cls v
  · next c hkind =>
    have hmethod : c.isMethod → Safe s.graph (s.registerMethod cls node id) b fun _ _ => True :=
      fun hc => safe_registerMethod hb hnode (DeclGraph.isMethod_iff.mpr
        ⟨c, DeclGraph.callable?_eq_some_iff.mpr hkind, hc⟩) cls
    unfold Callable.isMethod at hmethod
    cases hc : c.kind with
    | constructor _ _ | destructor => exact Safe.pure hb trivial
    | castingOperator => exact safe_registerCast hb hnode id
    | memberOperator symbol =>
      rw [hc] at hmethod
      dsimp only at hmethod ⊢
      split
      · next h => exact hmethod h
      · exact safe_registerMemberOperator hb hnode cls id
    | _ =>
      rw [hc] at hmethod
      exact hmethod rfl
  · exact Safe.pure hb trivial

theorem safe_completeClass (hg : s.graph.Closed) (hb : b.Ready) (hnode : b.tree.hasChildList node)
    (hcls : cls < s.graph.size) :
    Safe s.graph (s.completeClass cls node) b fun _ _ => True := by
  unfold completeClass
  extract_lets config finish
  have hfinish : ∀ {b'}, b.Onward b' → ∀ u, Safe s.graph (finish u) b' fun _ _ => True := by
    intro b' h u
    have hnode := h.room hnode
    refine (safe_registerConstructors hg h.ready hnode hcls).bind fun _ b₁ h₁ _ => ?_
    refine (safe_takeStatic h₁.ready node).bind fun names b₂ h₂ _ => ?_
    have hnode := h₂.room (h₁.room hnode)
    refine (Safe.forIn h₂.ready (fun name _ u b' h' => ?_) _).bind fun _ b₃ h₃ _ =>
      safe_addCustomTexts h₃.ready (h₃.room hnode) _ _
    exact (safe_place h'.ready (h'.room hnode)).bind fun _ _ h _ => Safe.pure h.ready trivial
  split
  · exact hfinish hb.onward ()
  · refine (safe_wrapperOf hb cls).bind fun w b₁ h₁ hw => ?_
    exact (safe_addCustomTexts h₁.ready hw _ _).bind fun u b₂ h₂ _ => hfinish (h₁.trans h₂) u

theorem safe_fillClass (hg : s.graph.Closed) (hnested : s.SafeNested nested) (hb : b.Ready)
    (hnode : b.tree.hasChildList node) (hcls : cls < s.graph.size) :
    Safe s.graph (s.fillClass nested cls node) b fun _ _ => True := by
  rw [fillClass_eq]
  refine (Safe.lift_missing hb (exists_boundMembers hg cls)).bind fun members b₁ h₁ _ => ?_
  have hnode₁ := h₁.room hnode
  have hmembers : Safe s.graph (members.forM (s.registerMember nested cls node)) b₁
      fun _ _ => True :=
    Safe.forM h₁.ready fun id _ b' h =>
      safe_registerMember hnested h.ready (h.room hnode₁) cls id
  refine hmembers.bind fun _ b₂ h₂ _ => ?_
  obtain ⟨found, hfound, hmethods⟩ := s.exists_inheritedMethods cls
  refine (Safe.lift_missing h₂.ready ⟨found, hfound⟩).bind fun found' b₃ h₃ hfound' => ?_
  obtain rfl : found = found' := Except.ok.inj (hfound.symm.trans hfound')
  have hnode := h₃.room (h₂.room hnode₁)
  have hinherited : Safe s.graph (found.forM (s.registerMethod cls node)) b₃ fun _ _ => True :=
    Safe.forM h₃.ready fun id hid b' h =>
      safe_registerMethod h.ready (h.room hnode) (hmethods id hid) cls
  exact hinherited.bind fun _ b₄ h₄ _ => safe_completeClass hg h₄.ready (h₄.room hnode) hcls

/-- **A class is bound with all classes in it, unless transformers fail.** -/
theorem safe_registerClass (hg : s.graph.Closed) : ∀ depth, s.SafeNested (s.registerClass depth)
  | 0 => fun _ _ _ _ hb _ _ => Safe.pure hb trivial
  | depth + 1 => by
    intro b p cls c hb hp hcls
    have hlt := DeclGraph.lt_size_of_kind? hcls
    unfold registerClass
    refine (safe_classNode hg hb hcls).bind fun registration b₁ h₁ _ => ?_
    refine (safe_place h₁.ready (h₁.room hp)).bind fun node b₂ h₂ hgains => ?_
    have hnode := hgains.room rfl
    refine (Safe.modify (Q := fun _ b' => b'.tree.hasChildList node)
      ⟨h₂.ready.note_classNode hnode cls, .refl h₂.ready.wellFormed⟩ hnode).bind
        fun _ b₃ h₃ hnode => ?_
    refine (safe_markExported h₃.ready cls).bind fun _ b₄ h₄ _ => ?_
    refine (safe_fillClass hg (safe_registerClass hg depth) h₄.ready (h₄.room hnode) hlt).bind
      fun _ b₅ h₅ _ => ?_
    exact Safe.get_bind (safe_updateClass h₅.ready)

/-! ### Modules -/

/-- A declaration outside of classes is bound, unless its transformers fail. -/
theorem safe_register (hg : s.graph.Closed) (hb : b.Ready) (hp : b.tree.hasChildList parent)
    (hid : id < s.graph.size) : Safe s.graph (s.register parent id) b fun _ _ => True := by
  unfold register
  refine (Safe.lift_missing hb (exists_isExportable hid)).bind fun exportable b₁ h₁ _ => ?_
  have hb := h₁.ready
  have hp := h₁.room hp
  split
  · split
    · next c hkind => exact safe_registerClass hg _ b₁ parent id c hb hp hkind
    · next values hkind => exact safe_registerEnum hb hp hid values
    · next v hkind => exact safe_registerGlobalVariable hb hp hid
    · next c hkind =>
      have hc := DeclGraph.callable?_eq_some_iff.mpr hkind
      split
      · next hfree =>
        split
        · exact safe_registerPlainFunction hb hp hid c
        · next htransformed =>
          refine safe_registerTransformedFunction hb hp hc ?_ fun h => ?_
          · unfold Callable.isMethod
            rw [hfree]
          · exact htransformed (by rw [h]; rfl)
      · exact safe_registerFreeOperator hb id c _
      · exact Safe.pure hb trivial
    · exact Safe.pure hb trivial
  · exact Safe.pure hb trivial

/-- The containers that are used exist. -/
theorem lt_size_of_mem_usedContainers {ids : List DeclId} {name : String}
    {u : DeclId × ContainerKind} (h : (name, u) ∈ s.usedContainers ids) : u.1 < s.graph.size :=
  DeclGraph.lt_size_of_isClass (isStdClass_of_mem_usedContainers h).1

/-- A container takes a position that the body has, and the next one may take the next. -/
theorem safe_registerContainer {position : Nat} (hb : b.Ready) (hp : b.tree.hasChildList parent)
    (hle : position ≤ (b.tree.children parent).length) (hid : id < s.graph.size) (fullName : String)
    (kind : ContainerKind) :
    Safe s.graph (s.registerContainer parent position fullName id kind) b fun _ b' =>
      b'.tree.hasChildList parent ∧ position + 1 ≤ (b'.tree.children parent).length := by
  unfold registerContainer
  refine (safe_pythonName hb hid).bind fun name b₁ h₁ _ => ?_
  refine (safe_exposer h₁.ready id).bind fun exposer b₂ h₂ _ => ?_
  have hle := (hle.trans (h₁.roomier.length parent)).trans (h₂.roomier.length parent)
  have hp := h₂.room (h₁.room hp)
  refine (safe_placeAt h₂.ready hp hle).bind fun node b₃ h₃ hgains => ?_
  refine (safe_place h₃.ready (hgains.room rfl)).bind fun _ b₄ h₄ _ => ?_
  refine (safe_addHeaders h₄.ready (h₄.lt_size hgains.present)).bind fun _ b₅ h₅ _ => ?_
  refine (safe_markExported h₅.ready id).mono fun _ b₆ h₆ _ => ?_
  have hlate := (h₄.trans h₅).trans h₆
  exact ⟨hlate.room (h₃.room hp),
    (Nat.succ_le_of_lt (hle.trans_lt hgains.child)).trans (hlate.roomier.length parent)⟩

theorem safe_registerContainers (hb : b.Ready) (hp : b.tree.hasChildList parent) :
    Safe s.graph (s.registerContainers parent) b fun _ _ => True := by
  unfold registerContainers
  refine Safe.get_bind ?_
  refine Safe.forM_zipIdx (P := fun i b' =>
    b'.tree.hasChildList parent ∧ i ≤ (b'.tree.children parent).length) hb ⟨hp, Nat.zero_le _⟩
    fun u i b' hu h hi => ?_
  obtain ⟨fullName, id, kind⟩ := u
  exact safe_registerContainer h.ready hi.1 hi.2 (lt_size_of_mem_usedContainers hu) fullName kind

theorem safe_includeHeaders (hb : b.Ready) : Safe s.graph s.includeHeaders b fun _ _ => True := by
  unfold includeHeaders
  refine Safe.get_bind ?_
  obtain ⟨headers, hheaders⟩ : ∃ headers, s.moduleHeaders b = .ok headers :=
    Except.exists_bind
      (CodeTree.exists_requiredHeaders (CodeTree.lt_size_of_hasChildList hb.root))
      fun _ _ => ⟨_, rfl⟩
  have hlift : Safe s.graph (liftM (s.moduleHeaders b) : Binding (List String)) b
      fun _ _ => True := by
    rw [hheaders]
    exact Safe.of_run rfl hb.onward trivial
  refine hlift.bind fun headers b₁ h₁ _ => Safe.forM h₁.ready fun header _ b' h => ?_
  refine safe_editTree h.ready ?_
  obtain ⟨t, ht, hroom⟩ := h.ready.wellFormed.exists_addInclude h.ready.root header
  exact ⟨t, by rw [ht], hroom⟩

/-- **The binding of a list of declarations that exist stops for no other reason than that the
transformers of a function fail**, and reports no errors. -/
theorem bind_safe (hg : s.graph.Closed) {ids : List DeclId} (hids : ∀ id ∈ ids, id < s.graph.size) :
    match s.bind ids with
    | .ok b => ∀ d ∈ b.diagnostics, d.severity ≠ .error
    | .error e => ∃ err, e = .transform err ∧ s.graph.TransformersFail err := by
  obtain ⟨t, body, hmodule, hbody, hw, hroot, hroom⟩ :=
    CodeTree.exists_ofModule s.options.name s.options.license s.options.bindingNamespace
  have hb : Binder.Ready { tree := t } :=
    ⟨hw, hroot, fun _ _ h => (nomatch h), fun _ _ h => (nomatch h), fun _ h => (nomatch h)⟩
  have hregister : Safe s.graph (ids.forM (s.register body)) { tree := t } fun _ _ => True :=
    Safe.forM hb fun id hid b' h => safe_register hg h.ready (h.room hroom) (hids id hid)
  have hall : Safe s.graph (s.bindAll body ids) { tree := t } fun _ _ => True := by
    unfold bindAll
    refine hregister.bind fun _ b₁ h₁ _ => ?_
    refine (safe_registerContainers h₁.ready (h₁.room hroom)).bind fun _ b₂ h₂ _ => ?_
    exact safe_includeHeaders h₂.ready
  have hrun : s.bind ids = (do return (← (s.bindAll body ids).run { tree := t }).2) := by
    have hlift : (liftM (Except.ok t : Except TreeError CodeTree) : Except BindError CodeTree) =
      .ok t := rfl
    unfold bind
    rw [hmodule, hlift]
    dsimp only [Bind.bind, Except.bind]
    rw [hbody]
  unfold Safe at hall
  rw [hrun]
  cases hok : (s.bindAll body ids).run { tree := t } with
  | error e =>
    rw [hok] at hall
    exact hall
  | ok p =>
    rw [hok] at hall
    exact hall.1.ready.warned

end Bindery.BindingSetup
