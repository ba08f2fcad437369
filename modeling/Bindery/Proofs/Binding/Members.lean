import Bindery.Proofs.Analysis.Exportability
import Bindery.Proofs.Analysis.Siblings
import Bindery.Proofs.Binding.Methods

/-!
# Bindings made of steps

Everything but the registration of classes and containers is a run of steps: the methods,
operators, variables and enumerations of a class, its constructors, the declarations outside of
classes, and the headers.  So all of this leaves the skeleton of the tree alone.

## Main definitions

* `DeclGraph.isMethod` — the functions of a class that are bound as its methods.
* `BindingSetup.completeClass` — what is bound for a class behind its members and the functions of
  its bases.

## Main results

* `moves_registerMember`, `moves_registerConstructors` and their neighbours — **binding anything
  but a class is a run of steps.**
* `fillClass_ok`, `registerClass_ok`, `bindAll_ok` — the parts of which classes and modules are
  made.
-/

namespace Bindery

open Binding

namespace BindingSetup

variable {s : BindingSetup} {may : DeclId → DeclId → Prop} {cls? : Option DeclId} {cls : DeclId}
  {node : NodeId}

/-! ### Operators -/

theorem moves_registerMemberOperator (id : DeclId) :
    Moves (s.BindRun may cls?) (s.registerMemberOperator cls node id) := by
  unfold registerMemberOperator
  split
  · split
    · refine (moves_place ?_).bind fun _ => moves_markExported id
      exact fun _ => trivial
    · exact Moves.pure _
  · exact Moves.pure _

theorem moves_registerFreeOperator (id : DeclId) (c : Callable) (symbol : String) :
    Moves (s.BindRun may cls?) (s.registerFreeOperator id c symbol) := by
  unfold registerFreeOperator
  refine Moves.get.bind fun b => ?_
  split
  · exact s.moves_warn _ _
  · split
    · exact Moves.pure _
    · refine (moves_place ?_).bind fun _ => moves_markExported id
      exact fun _ => trivial

theorem moves_registerCast (id : DeclId) :
    Moves (s.BindRun may cls?) (s.registerCast node id) := by
  unfold registerCast
  split
  · split
    · split
      · exact s.moves_warn _ _
      · refine (moves_place ?_).bind fun _ => moves_markExported id
        exact fun _ => trivial
    · split
      · exact Moves.pure _
      · refine (moves_place ?_).bind fun _ => moves_markExported id
        exact fun _ => trivial
  · exact Moves.pure _

/-! ### Enumerations and variables -/

theorem moves_registerEnum (parent : NodeId) (id : DeclId) (enumerators : List Enumerator) :
    Moves (s.BindRun may cls?) (s.registerEnum parent id enumerators) := by
  intro b u b' h
  unfold registerEnum at h
  extract_lets config names values register at h
  split at h
  · rw [pure_bind] at h
    refine (?_ : Moves (s.BindRun may cls?) _) _ _ _ h
    refine (moves_place ?_).bind fun _ => moves_markExported id
    exact fun _ => trivial
  · obtain ⟨pythonName, b₁, hname, h⟩ := run_bind_eq_ok.mp h
    obtain ⟨hnamed, hid⟩ := run_pythonName may cls? hname
    rw [pure_bind] at h
    obtain ⟨n, b₂, hplace, h⟩ := run_bind_eq_ok.mp h
    have hplaced : s.BindRun may cls? b₁ b₂ := run_place hplace ⟨id, rfl, hid⟩
    exact (hnamed.trans hplaced).trans (moves_markExported id _ _ _ h)

theorem moves_registerMemberVariable (id : DeclId) (v : VariableDecl) :
    Moves (s.BindRun may (some cls)) (s.registerMemberVariable cls node id v) := by
  intro b u b' h
  unfold registerMemberVariable at h
  obtain ⟨pythonName, b₁, hname, h⟩ := run_bind_eq_ok.mp h
  obtain ⟨hnamed, hid⟩ := run_pythonName may (some cls) hname
  refine hnamed.trans ?_
  split at h
  · obtain ⟨n, b₂, hplace, h⟩ := run_bind_eq_ok.mp h
    exact (run_place hplace ⟨id, rfl, hid⟩).trans (moves_markExported id _ _ _ h)
  · obtain ⟨w, b₂, hwrapper, h⟩ := run_bind_eq_ok.mp h
    obtain ⟨hwrapped, -⟩ := run_wrapperOf may hwrapper
    obtain ⟨n, b₃, haccessor, h⟩ := run_bind_eq_ok.mp h
    have haccess := hwrapped.trans (run_place haccessor trivial)
    obtain ⟨n', b₄, hproperty, h⟩ := run_bind_eq_ok.mp h
    have hplaced : s.BindRun may (some cls) b₃ b₄ :=
      run_place hproperty ⟨id, rfl, hid.mono (later_of_run haccess).seen⟩
    exact (haccess.trans hplaced).trans (moves_markExported id _ _ _ h)

/-! ### Constructors and texts of the user -/

theorem moves_registerConstructor (cls : DeclId) (position : Nat) (ctor : DeclId × Callable) :
    Moves (s.BindRun may cls?) (s.registerConstructor cls node position ctor) := by
  unfold registerConstructor
  dsimp only
  split
  · exact (s.moves_warn _ _).bind fun _ => Moves.pure _
  · refine (moves_placeAt ?_).bind fun _ => (moves_markExported _).bind fun _ => ?_
    · exact fun _ => trivial
    · split
      · next conversion hconversion =>
        have hfits : ∀ b, s.Fits (InWrapper may cls? b node) b (some ctor.1) conversion := by
          unfold castingConversion? at hconversion
          split at hconversion
          · rw [Option.ite_none_right_eq_some] at hconversion
            obtain ⟨-, h⟩ := hconversion
            cases h
            exact fun _ => trivial
          · cases hconversion
        exact (moves_place hfits).bind fun _ => Moves.pure _
      · exact Moves.pure _

theorem fits_wrapperConstructors {wrapper : String} {ctors : List (DeclId × Callable)}
    {kinds : List NodeKind} (h : s.wrapperConstructors cls wrapper ctors = .ok kinds) :
    ∀ kind ∈ kinds, ∀ here b decl, s.Fits here b decl kind := by
  simp only [wrapperConstructors, Except.bind_eq_ok, Except.pure_eq_ok] at h
  obtain ⟨isNoncopyable, -, rfl⟩ := h
  intro kind hkind
  rcases List.mem_append.mp hkind with hkind | hkind
  · rcases List.mem_append.mp hkind with hkind | hkind
    · split at hkind
      · rw [List.mem_singleton.mp hkind]
        exact fun _ _ _ => trivial
      · cases hkind
    · obtain ⟨c, -, rfl⟩ := List.mem_map.mp hkind
      exact fun _ _ _ => trivial
  · split at hkind
    · rw [List.mem_singleton.mp hkind]
      exact fun _ _ _ => trivial
    · cases hkind

theorem moves_registerConstructors (cls : DeclId) (node : NodeId) :
    Moves (s.BindRun may cls?) (s.registerConstructors cls node) := by
  unfold registerConstructors
  refine Moves.get.bind fun b => ?_
  refine (Moves.lift_missing _).bind fun ctors => ?_
  extract_lets fill withArgs
  have hfill : ∀ u, Moves (s.BindRun may cls?) (fill u) := by
    intro u
    unfold fill
    split
    · next w _ =>
      intro b c b' h
      obtain ⟨kinds, b₁, hkinds, h⟩ := run_bind_eq_ok.mp h
      obtain ⟨hok, rfl⟩ := run_lift_missing_eq_ok.mp hkinds
      refine Moves.forM _ (fun p hkind => ?_) b c b' h
      obtain ⟨kind, i⟩ := p
      have hmem : kind ∈ kinds := List.fst_mem_of_mem_zipIdx hkind
      refine (moves_placeAt fun b => ?_).bind fun _ => Moves.pure _
      exact fits_wrapperConstructors hok kind hmem _ b _
    · exact Moves.pure _
  split
  · exact hfill ()
  · refine Moves.bind (Moves.foldlM _ _ fun position ctor _ => ?_) fun _ => hfill ()
    exact moves_registerConstructor cls position ctor

theorem moves_addCustomTexts (parent : NodeId) (worksOnInstance : Bool) (texts : List String) :
    Moves (s.BindRun may cls?) (addCustomTexts parent worksOnInstance texts) := by
  refine Moves.forM texts fun _ _ => (moves_place ?_).bind fun _ => Moves.pure _
  exact fun _ => trivial

/-! ### Classes -/

/-- The registration of a class has its name in Python, and the identifier of its full name has been
met. -/
theorem classNode_ok (s : BindingSetup) (may : DeclId → DeclId → Prop) (cls? : Option DeclId)
    {c : ClassDecl} {b b' : Binder} {registration : ClassNode}
    (h : (s.classNode cls c).run b = .ok (registration, b')) :
    s.BindRun may cls? b b' ∧ s.Named b' cls registration.pythonName ∧
      DeclGraph.withoutRoot (s.graph.fullName cls) ∈ b'.mangler.seen := by
  unfold classNode at h
  obtain ⟨bases, b₁, hbases, h⟩ := run_bind_eq_ok.mp h
  obtain ⟨-, rfl⟩ := run_lift_missing_eq_ok.mp hbases
  obtain ⟨pythonName, b₁, hname, h⟩ := run_bind_eq_ok.mp h
  obtain ⟨hrun, hnamed⟩ := run_pythonName may cls? hname
  obtain ⟨exposer, b₂, hexposer, h⟩ := run_bind_eq_ok.mp h
  obtain ⟨-, rfl⟩ := run_identifier hexposer
  obtain ⟨noncopyable, b₃, hcopy, h⟩ := run_bind_eq_ok.mp h
  obtain ⟨-, rfl⟩ := run_lift_missing_eq_ok.mp hcopy
  obtain ⟨rfl, rfl⟩ := run_pure_eq_ok.mp h
  exact ⟨hrun.tail (.meet b₁ _), hnamed.mono (Text.Mangler.seen_subset_add _ _),
    Text.Mangler.mem_seen_add _ _⟩

/-- What is bound for a class behind its members and the functions of its bases. -/
def completeClass (s : BindingSetup) (cls : DeclId) (node : NodeId) : Binding Unit := do
  let config := s.graph.config cls
  unless config.wrapperCode.isEmpty do
    addCustomTexts (← s.wrapperOf cls).node false config.wrapperCode
  s.registerConstructors cls node
  for pythonName in ← takeStatic node do
    let _ ← place node (.staticMethod pythonName) none
  addCustomTexts node true config.code

/-- What is bound for a class behind the texts that the user puts into its wrapper class. -/
def finishClass (s : BindingSetup) (cls : DeclId) (node : NodeId) : Binding Unit := do
  s.registerConstructors cls node
  for pythonName in ← takeStatic node do
    let _ ← place node (.staticMethod pythonName) none
  addCustomTexts node true (s.graph.config cls).code

theorem completeClass_eq (s : BindingSetup) (cls : DeclId) (node : NodeId) :
    s.completeClass cls node =
      if (s.graph.config cls).wrapperCode.isEmpty then s.finishClass cls node
      else (do
        addCustomTexts (← s.wrapperOf cls).node false (s.graph.config cls).wrapperCode
        s.finishClass cls node) := rfl

theorem fillClass_eq (s : BindingSetup) (nested : NodeId → DeclId → ClassDecl → Binding Unit)
    (cls : DeclId) (node : NodeId) : s.fillClass nested cls node = (do
      (← s.boundMembers cls).forM (s.registerMember nested cls node)
      (← s.inheritedMethods cls).forM (s.registerMethod cls node)
      s.completeClass cls node) := rfl

/-- A class is filled with its members, then with the functions of its bases, and then with the
rest. -/
theorem fillClass_ok {nested : NodeId → DeclId → ClassDecl → Binding Unit} {b b' : Binder}
    {u : PUnit} (h : (s.fillClass nested cls node).run b = .ok (u, b')) :
    ∃ members found b₁ b₂ v w, s.boundMembers cls = .ok members ∧
      s.inheritedMethods cls = .ok found ∧
      (members.forM (s.registerMember nested cls node)).run b = .ok (v, b₁) ∧
      (found.forM (s.registerMethod cls node)).run b₁ = .ok (w, b₂) ∧
      (s.completeClass cls node).run b₂ = .ok (u, b') := by
  rw [fillClass_eq] at h
  obtain ⟨members, b₁, hmembers, h⟩ := run_bind_eq_ok.mp h
  obtain ⟨hok, rfl⟩ := run_lift_missing_eq_ok.mp hmembers
  obtain ⟨v, b₁, hforM, h⟩ := run_bind_eq_ok.mp h
  obtain ⟨found, b₂, hfound, h⟩ := run_bind_eq_ok.mp h
  obtain ⟨hok', rfl⟩ := run_lift_missing_eq_ok.mp hfound
  obtain ⟨w, b₂, hforM', h⟩ := run_bind_eq_ok.mp h
  exact ⟨members, found, b₁, b₂, v, w, hok, hok', hforM, hforM', h⟩

theorem moves_finishClass (cls : DeclId) (node : NodeId) :
    Moves (s.BindRun may cls?) (s.finishClass cls node) := by
  unfold finishClass
  refine (moves_registerConstructors cls node).bind fun _ => ?_
  refine (moves_takeStatic node).bind fun names => ?_
  refine Moves.bind (Moves.forIn (fun name _ => ?_) _ _) fun _ => moves_addCustomTexts _ _ _
  refine (moves_place ?_).bind fun _ => Moves.pure _
  exact fun _ => trivial

theorem moves_completeClass (cls : DeclId) (node : NodeId) :
    Moves (s.BindRun may (some cls)) (s.completeClass cls node) := by
  rw [completeClass_eq]
  split
  · exact moves_finishClass cls node
  · exact (moves_wrapperOf cls).bind fun w =>
      (moves_addCustomTexts _ _ _).bind fun _ => moves_finishClass cls node

/-- A class is registered: its registration is placed and noted, then filled, and in the end it says
whether Python can make objects of the class. -/
theorem registerClass_eq_ok {depth : Nat} {p : NodeId} {c : ClassDecl} {b b' : Binder} {u : PUnit}
    (h : (s.registerClass (depth + 1) p cls c).run b = .ok (u, b')) :
    ∃ registration b₁ t b₂ v, (s.classNode cls c).run b = .ok (registration, b₁) ∧
      CodeTree.PlacedAs b₁.tree p (.cls registration) (some cls) (b₁.tree.children p) [] t ∧
      (s.fillClass (fun p id c => s.registerClass depth p id c) cls b₁.tree.size).run { b₁ with
        tree := t
        classNodes := (cls, b₁.tree.size) :: b₁.classNodes
        exported := b₁.exported ++ [cls] } = .ok (v, b₂) ∧
      (updateClass b₁.tree.size fun r => { r with noInit := s.hasNoInit b₂ cls }).run b₂ =
        .ok (u, b') := by
  unfold registerClass at h
  obtain ⟨registration, b₁, hnode, h⟩ := run_bind_eq_ok.mp h
  obtain ⟨node, b₂, hplace, h⟩ := run_bind_eq_ok.mp h
  obtain ⟨rfl, t, hadopt, rfl⟩ := place_ok hplace
  obtain ⟨u₁, b₃, hnote, hrest⟩ := run_bind_eq_ok.mp h
  obtain rfl := run_modify_eq_ok.mp hnote
  obtain ⟨u₂, b₄, hmark, hrest⟩ := run_bind_eq_ok.mp hrest
  obtain rfl := run_modify_eq_ok.mp hmark
  obtain ⟨v, b₅, hfill, hrest⟩ := run_bind_eq_ok.mp hrest
  obtain ⟨b₆, b₇, hget, hupdate⟩ := run_bind_eq_ok.mp hrest
  obtain ⟨rfl, rfl⟩ := run_get_eq_ok.mp hget
  exact ⟨registration, b₁, t, b₅, v, hnode, CodeTree.placedAs_of_adopt hadopt, hfill, hupdate⟩

/-- What is noted of a class leaves the tree alone, and the last change of its registration is a
run. -/
theorem registerClass_ok {depth : Nat} {p : NodeId} {c : ClassDecl} {b b' : Binder} {u : PUnit}
    (h : (s.registerClass (depth + 1) p cls c).run b = .ok (u, b')) :
    ∃ registration b₁ t b₂ b₃ v, (s.classNode cls c).run b = .ok (registration, b₁) ∧
      CodeTree.PlacedAs b₁.tree p (.cls registration) (some cls) (b₁.tree.children p) [] t ∧
      Quiet { b₁ with tree := t } b₂ ∧
      (s.fillClass (fun p id c => s.registerClass depth p id c) cls b₁.tree.size).run b₂ =
        .ok (v, b₃) ∧
      ∀ may cls?, s.BindRun may cls? b₃ b' := by
  obtain ⟨registration, b₁, t, b₂, v, hnode, hplaced, hfill, hupdate⟩ := registerClass_eq_ok h
  refine ⟨registration, b₁, t, _, b₂, v, hnode, hplaced, ?_, hfill, fun may cls? => ?_⟩
  · exact ⟨rfl, rfl, rfl⟩
  · refine moves_updateClass _ ?_ _ _ _ hupdate
    exact fun _ => rfl

/-! ### Members of a class -/

end BindingSetup

/-- A function that is bound as a method of its class, and no constructor, destructor, conversion or
operator on operands. -/
def Callable.isMethod (c : Callable) : Bool :=
  match c.kind with
  | .constructor .. | .destructor | .castingOperator => false
  | .memberOperator symbol => (callOperators.lookup symbol).isSome
  | _ => true

/-- The declaration is a function that is bound as a method of its class. -/
def DeclGraph.isMethod (g : DeclGraph) (id : DeclId) : Bool :=
  (g.callable? id).any Callable.isMethod

theorem DeclGraph.isMethod_iff {g : DeclGraph} {id : DeclId} :
    g.isMethod id ↔ ∃ c, g.callable? id = some c ∧ c.isMethod := by
  unfold isMethod
  cases g.callable? id with
  | none => simp
  | some c => simp

namespace BindingSetup

variable {s : BindingSetup} {may : DeclId → DeclId → Prop} {cls? : Option DeclId} {cls : DeclId}
  {node : NodeId} {nested : NodeId → DeclId → ClassDecl → Binding Unit}

theorem registerMember_cls {id : DeclId} {c : ClassDecl} (h : s.graph.kind? id = some (.cls c)) :
    s.registerMember nested cls node id = nested node id c := by
  unfold registerMember
  rw [h]

theorem registerMember_of_isMethod {id : DeclId} (h : s.graph.isMethod id) :
    s.registerMember nested cls node id = s.registerMethod cls node id := by
  obtain ⟨c, hcallable, hmethod⟩ := DeclGraph.isMethod_iff.mp h
  unfold registerMember
  rw [DeclGraph.callable?_eq_some_iff.mp hcallable]
  unfold Callable.isMethod at hmethod
  dsimp only
  cases hkind : c.kind with
  | constructor _ _ | destructor | castingOperator => rw [hkind] at hmethod; cases hmethod
  | memberOperator symbol =>
    rw [hkind] at hmethod
    exact if_pos hmethod
  | _ => rfl

/-- Bound with a class are its members that come into question and take part in the module. -/
theorem mem_boundMembers {members : List DeclId} {m : DeclId}
    (h : s.boundMembers cls = .ok members) :
    m ∈ members ↔ m ∈ s.graph.members cls ∧
      (∃ d, s.graph.get? m = some d ∧ s.graph.isCandidate m d.access) ∧
      s.isExportable m = .ok true := by
  obtain ⟨offered, hoffered, h⟩ := Except.bind_eq_ok.mp h
  obtain ⟨exportable, hexportable, h⟩ := Except.bind_eq_ok.mp h
  obtain ⟨o, ho, h⟩ := Except.bind_eq_ok.mp h
  cases h
  rw [DeclGraph.mem_order ho, Except.mem_filterM hexportable,
    DeclGraph.mem_candidateMembers hoffered, and_assoc]

/-- A member that is no class is bound by a run of steps. -/
theorem moves_registerMember {id : DeclId} (hclass : ¬ s.graph.isClass id)
    (hmay : s.graph.isMethod id → may cls id) :
    Moves (s.BindRun may (some cls)) (s.registerMember nested cls node id) := by
  unfold registerMember
  split
  · next c hkind => exact absurd (DeclGraph.isClass_iff.mpr ⟨c, hkind⟩) hclass
  · exact moves_registerEnum _ _ _
  · exact moves_registerMemberVariable _ _
  · next c hkind =>
    have hmethod : c.isMethod →
        Moves (s.BindRun may (some cls)) (s.registerMethod cls node id) := by
      intro hc
      exact moves_registerMethod (hmay (DeclGraph.isMethod_iff.mpr
        ⟨c, DeclGraph.callable?_eq_some_iff.mpr hkind, hc⟩))
    unfold Callable.isMethod at hmethod
    cases hc : c.kind with
    | constructor _ _ | destructor => exact Moves.pure _
    | castingOperator => exact moves_registerCast _
    | memberOperator symbol =>
      rw [hc] at hmethod
      dsimp only at hmethod ⊢
      split
      · next h => exact hmethod h
      · exact moves_registerMemberOperator _
    | _ =>
      rw [hc] at hmethod
      exact hmethod rfl
  · exact Moves.pure _

/-! ### Declarations outside of classes -/

theorem moves_registerGlobalVariable (body : NodeId) (id : DeclId) :
    Moves (s.BindRun may cls?) (s.registerGlobalVariable body id) := by
  intro b u b' h
  unfold registerGlobalVariable at h
  obtain ⟨pythonName, b₁, hname, h⟩ := run_bind_eq_ok.mp h
  obtain ⟨hnamed, hid⟩ := run_pythonName may cls? hname
  obtain ⟨n, b₂, hplace, h⟩ := run_bind_eq_ok.mp h
  have hplaced : s.BindRun may cls? b₁ b₂ := run_place hplace ⟨id, rfl, hid⟩
  exact (hnamed.trans hplaced).trans (moves_markExported id _ _ _ h)

theorem moves_registerPlainFunction (body : NodeId) (id : DeclId) (c : Callable)
    (huntransformed : (s.graph.config id).transformers.isEmpty) :
    Moves (s.BindRun may cls?) (s.registerPlainFunction body id c) := by
  unfold registerPlainFunction
  dsimp only
  split
  · exact s.moves_warn _ _
  · refine (s.moves_pythonName id).bind fun _ => ?_
    refine (moves_place ?_).bind fun _ => moves_markExported id
    refine fun _ => ⟨id, rfl, fun r hr => ?_⟩
    obtain rfl := List.mem_singleton.mp hr
    rw [DeclGraph.castsAddress, huntransformed, Bool.true_and]
    cases s.graph.needsSignature id <;> rfl

theorem moves_registerTransformedFunction (body : NodeId) (id : DeclId) (c : Callable)
    (htransformed : ¬ (s.graph.config id).transformers.isEmpty) :
    Moves (s.BindRun may cls?) (s.registerTransformedFunction body id c) := by
  unfold registerTransformedFunction
  dsimp only
  refine (s.moves_pythonName id).bind fun pythonName => ?_
  refine (Moves.lift_transform _).bind fun t => ?_
  split
  · exact s.moves_warn _ _
  · refine (moves_freshIn _ _).bind fun name => ?_
    refine (moves_placeBeforeBody ?_).bind fun adapter => ?_
    · exact fun _ => trivial
    refine (moves_addHeaders _ _).bind fun _ => ?_
    refine (moves_place ?_).bind fun _ => moves_markExported id
    refine fun _ => ⟨id, rfl, fun r hr => ?_⟩
    obtain rfl := List.mem_singleton.mp hr
    rw [DeclGraph.castsAddress, Bool.eq_false_iff.mpr htransformed]
    rfl

/-- A declaration outside of classes that is no class is bound by a run of steps. -/
theorem moves_register (body : NodeId) {id : DeclId} (hclass : ¬ s.graph.isClass id) :
    Moves (s.BindRun may cls?) (s.register body id) := by
  unfold register
  refine (Moves.lift_missing _).bind fun exportable => ?_
  split
  · split
    · next c hkind => exact absurd (DeclGraph.isClass_iff.mpr ⟨c, hkind⟩) hclass
    · exact moves_registerEnum _ _ _
    · exact moves_registerGlobalVariable _ _
    · split
      · split
        · next h => exact moves_registerPlainFunction _ _ _ h
        · next h => exact moves_registerTransformedFunction _ _ _ h
      · exact moves_registerFreeOperator _ _ _
      · exact Moves.pure _
    · exact Moves.pure _
  · exact Moves.pure _

/-! ### The module -/

/-- Including a header puts at most one node into the tree. -/
theorem run_addInclude {b : Binder} {t : CodeTree} {header : String}
    (h : b.tree.addInclude header = (.ok (), t)) :
    s.BindRun may cls? b { b with tree := t } := by
  unfold CodeTree.addInclude at h
  split at h
  · cases h
    exact RunRelation.refl _
  · dsimp only at h
    split at h
    · cases h
    · next hadopt =>
      cases h
      exact (BindStep.place (CodeTree.placedAs_of_adoptAt hadopt) trivial).run

theorem moves_includeHeaders : Moves (s.BindRun may cls?) s.includeHeaders := by
  unfold includeHeaders
  refine Moves.get.bind fun b => ?_
  refine (Moves.lift_tree _).bind fun headers => ?_
  refine Moves.forM headers fun header _ b c b' h => ?_
  obtain ⟨t, ht, rfl⟩ := editTree_ok h
  split at ht
  · next hadd =>
    cases ht
    exact run_addInclude hadd
  · cases ht

/-- A module is bound in a tree with a body. -/
theorem bind_ok {ids : List DeclId} {b : Binder} (h : s.bind ids = .ok b) :
    ∃ t body u,
      CodeTree.ofModule s.options.name s.options.license s.options.bindingNamespace = .ok t ∧
      t.body? = some body ∧ (s.bindAll body ids).run { tree := t } = .ok (u, b) := by
  unfold bind at h
  obtain ⟨t, htree, h⟩ := Except.bind_eq_ok.mp h
  have hmodule : CodeTree.ofModule s.options.name s.options.license s.options.bindingNamespace =
      .ok t := by
    cases hmodule : CodeTree.ofModule s.options.name s.options.license
        s.options.bindingNamespace with
    | error e => rw [hmodule] at htree; cases htree
    | ok t' => rw [hmodule] at htree; cases htree; rfl
  split at h
  · cases h
  · next body hbody =>
    obtain ⟨⟨u, b'⟩, hrun, h⟩ := Except.bind_eq_ok.mp h
    cases h
    exact ⟨t, body, u, hmodule, hbody, hrun⟩

/-- The declarations outside of classes are bound first, then the containers, and headers are
included in the end. -/
theorem bindAll_ok {body : NodeId} {ids : List DeclId} {b b' : Binder} {u : PUnit}
    (h : (s.bindAll body ids).run b = .ok (u, b')) :
    ∃ b₁ b₂ v w, (ids.forM (s.register body)).run b = .ok (v, b₁) ∧
      (s.registerContainers body).run b₁ = .ok (w, b₂) ∧ s.includeHeaders.run b₂ = .ok (u, b') := by
  unfold bindAll at h
  obtain ⟨v, b₁, hregister, h⟩ := run_bind_eq_ok.mp h
  obtain ⟨w, b₂, hcontainers, hinclude⟩ := run_bind_eq_ok.mp h
  exact ⟨b₁, b₂, v, w, hregister, hcontainers, hinclude⟩

end BindingSetup

end Bindery
