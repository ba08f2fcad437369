import Bindery.Proofs.Binding.Inherited
import Bindery.Proofs.Binding.Ledger
import Bindery.Proofs.Binding.ModuleTree

/-!
# Bindings and their entries

Whatever is bound, with all that is bound for it, changes the tree together with the ledger.  So a
whole module is bound by a run of such changes.

## Main results

* `within_registerMethod`, `within_registerMember`, `moves_register_noted` and their neighbours — one
  lemma for each sort of declaration.
* `enters_registerClass` — **a class is bound by a run, with all that is bound for it.**
* `moves_bindAll_noted` — **a module is bound by a run.**
-/

namespace Bindery

open Binding Binder CodeTree

namespace BindingSetup

variable {s : BindingSetup} {ids : List DeclId} {body p node : NodeId} {b b' : Binder}
  {cls id : DeclId}

theorem not_isClass_of_callable {c : Callable} (h : s.graph.kind? id = some (.callable c)) :
    ¬ s.graph.isClass id :=
  DeclGraph.not_isClass_of_kind? h fun _ hk => nomatch hk

/-! ### Methods -/

theorem Describes.not_isClass {m : Method} (h : s.Describes m) : ¬ s.graph.isClass m.id := by
  refine not_isClass_of_callable (c := m.callable) ?_
  unfold DeclGraph.kind?
  rw [h.decl, ← h.kind]
  rfl

/-- A function with a stand-in is bound through the wrapper class. -/
theorem Describes.boundInWrapper_of_shim {m : Method} (h : s.Describes m) {kind : ShimKind}
    (hexposure : Exposure.of m.decl.access m.callable = .shim kind) :
    s.graph.BoundInWrapper m.id := by
  refine ⟨m.decl, m.callable, h.decl, h.kind, ?_⟩
  cases haccess : m.decl.access with
  | pub =>
    refine .inr (.inl ?_)
    rw [haccess] at hexposure
    cases hvirtual : m.callable.virtuality with
    | notVirtual =>
      simp only [Exposure.of, hvirtual] at hexposure
      cases hexposure
    | _ => rfl
  | _ => exact .inl fun h => nomatch h

/-- A transformed function is bound through the wrapper class. -/
theorem Describes.boundInWrapper_of_transformed {m : Method} (h : s.Describes m)
    (htransformed : ¬ m.decl.config.transformers.isEmpty) : s.graph.BoundInWrapper m.id :=
  ⟨m.decl, m.callable, h.decl, h.kind, .inr (.inr (by simpa using htransformed))⟩

theorem run_registerMaker {m : Method} {maker : MakerNode} {u : PUnit} (ids : List DeclId)
    (body : NodeId) (h : (registerMaker node m maker).run b = .ok (u, b'))
    (hclass : ¬ s.graph.isClass m.id)
    (hgrounded : ∀ r ∈ maker.addresses, b.Grounded body node m.id r.1)
    (hsite : b.Site body node) : s.LedgerRun ids body b b' := by
  unfold registerMaker at h
  obtain ⟨n, b₁, hplace, h⟩ := run_bind_eq_ok.mp h
  obtain ⟨rfl, t, ht, rfl⟩ := place_ok hplace
  have hkind : ¬ (NodeKind.maker maker).isCompound := Bool.false_ne_true
  have hgrounded : ∀ r ∈ (NodeKind.maker maker).references, b.Grounded body node m.id r := by
    intro r hr
    obtain ⟨a, ha, rfl⟩ := List.mem_map.mp hr
    exact hgrounded a ha
  split at h
  · obtain ⟨v, b₂, hrequest, h⟩ := run_bind_eq_ok.mp h
    exact run_entered (placedAs_of_adopt ht) hkind hgrounded hsite hclass
      (aside_requestStatic _ _ _ _ _ hrequest) h
  · exact run_entered (placedAs_of_adopt ht) hkind hgrounded hsite hclass (refl_of Aside _) h

/-- The function itself is declared in the global scope or in a scope of it. -/
theorem Describes.grounded {m : Method} (h : s.Describes m) :
    b.Grounded body node m.id m.fullName := by
  obtain ⟨name, hname⟩ := s.graph.exists_fullName_eq m.id
  rw [h.fullName, hname]
  exact .declared name

theorem run_finishPlainMethod {m : Method} {exposure : Exposure} {wrapper : String} {u : PUnit}
    (ids : List DeclId) (body : NodeId)
    (h : (s.finishPlainMethod node m exposure wrapper).run b = .ok (u, b'))
    (hclass : ¬ s.graph.isClass m.id)
    (hgrounded : ∀ policy, ∀ r ∈ (m.maker s.graph wrapper exposure policy).addresses,
      b.Grounded body node m.id r.1)
    (hsite : b.Site body node) : s.LedgerRun ids body b b' := by
  unfold finishPlainMethod at h
  split at h
  · obtain ⟨-, rfl⟩ := run_pure_eq_ok.mp h
    exact refl_of (s.LedgerRun ids body) b
  · split at h
    · exact .of_aside (s.aside_warn _ _ _ _ _ h)
    · exact run_registerMaker ids body h hclass (hgrounded _) hsite

theorem within_registerPlainMethod {m : Method} {exposure : Exposure} (hm : s.Describes m)
    (hneeds : s.graph.BoundInWrapper m.id → s.NeedsWrapper cls)
    (hexposure : Exposure.of m.decl.access m.callable = exposure) :
    Moves (s.Within ids body cls node) (s.registerPlainMethod cls node m exposure) := by
  intro b u b' h hnode
  -- without a stand-in the registration refers to the function itself
  have hself : CallPolicy → ∀ r ∈ [(m.fullName, m.signature? s.graph m.declaring)],
      b.Grounded body node m.id r.1 := by
    intro _ r hr
    rw [List.mem_singleton.mp hr]
    exact hm.grounded
  cases exposure with
  | direct =>
    rw [registerPlainMethod_direct] at h
    exact run_finishPlainMethod ids body h hm.not_isClass hself (.inr ⟨cls, hnode⟩)
  | hidden =>
    rw [registerPlainMethod_hidden] at h
    exact run_finishPlainMethod ids body h hm.not_isClass hself (.inr ⟨cls, hnode⟩)
  | shim kind =>
    obtain ⟨w, b₁, n, b₂, hwrapper, hplace, hfinish⟩ := registerPlainMethod_ok h
    obtain ⟨hwrapped, hw⟩ := run_wrapperOf_needed ids body hwrapper
      (hneeds (hm.boundInWrapper_of_shim hexposure)) hnode
    obtain ⟨hplaced, hchild, hdecl, hkind⟩ :=
      run_place_wrapper ids body hplace ⟨Bool.false_ne_true, rfl⟩ hw
    have hbefore := hwrapped.trans hplaced
    have hnode₂ := (kept_of_run hbefore).classNodes hnode
    refine hbefore.trans (run_finishPlainMethod ids body hfinish hm.not_isClass
      (fun policy r hr => ?_) (.inr ⟨cls, hnode₂⟩))
    rcases reference_of_mem_addresses hr with hr | ⟨name, hdefines, hr⟩
    · rw [hr]
      exact hm.grounded
    · rw [hr]
      exact .member hnode₂ ((kept_of_run hplaced).wrapper cls w hw) hchild hdecl hkind hdefines

/-- What stands in for a transformed function has no nodes below it, and refers to nothing. -/
theorem standIn?_quiet {m : Method} {t : Transformation} {exposure : Exposure}
    {kind : NodeKind} (h : m.standIn? s.graph t exposure = some kind) : kind.Quiet := by
  cases exposure with
  | direct | hidden => cases h
  | shim shim =>
    cases shim <;> cases h <;> exact ⟨Bool.false_ne_true, rfl⟩

theorem run_finishTransformedMethod {m : Method} {exposure : Exposure} {w : WrapperClass}
    {t : Transformation} {u : PUnit} (ids : List DeclId) (body : NodeId)
    (h : (s.finishTransformedMethod node m exposure w t).run b = .ok (u, b'))
    (hm : s.Describes m) (hw : b.wrapper? cls = some w)
    (hnode : (cls, node) ∈ b.classNodes) : s.LedgerRun ids body b b' := by
  unfold finishTransformedMethod at h
  split at h
  · obtain ⟨-, rfl⟩ := run_pure_eq_ok.mp h
    exact refl_of (s.LedgerRun ids body) b
  · split at h
    · exact .of_aside (s.aside_warn _ _ _ _ _ h)
    · obtain ⟨name, b₁, hname, h⟩ := run_bind_eq_ok.mp h
      have hfresh : s.LedgerRun ids body b b₁ := .of_aside (aside_freshIn _ _ _ _ _ hname)
      obtain ⟨n, b₂, hplace, h⟩ := run_bind_eq_ok.mp h
      obtain ⟨hplaced, hchild, hdecl, hkind⟩ := run_place_wrapper ids body hplace
        ⟨Bool.false_ne_true, rfl⟩ ((kept_of_run hfresh).wrapper cls w hw)
      have hbefore := hfresh.trans hplaced
      have hnode₂ := (kept_of_run hbefore).classNodes hnode
      refine hbefore.trans (run_registerMaker ids body h hm.not_isClass (fun r hr => ?_)
        (.inr ⟨cls, hnode₂⟩))
      rw [List.mem_singleton.mp hr]
      have hjoin : w.name ++ "::" ++ name = s!"{w.name}::{name}" := rfl
      rw [← hjoin]
      exact .member hnode₂ ((kept_of_run hbefore).wrapper cls w hw) hchild hdecl hkind
        (NodeKind.defines_transformed _)

theorem within_registerTransformedMethod {m : Method} {exposure : Exposure} (hm : s.Describes m)
    (hneeds : s.graph.BoundInWrapper m.id → s.NeedsWrapper cls)
    (htransformed : ¬ m.decl.config.transformers.isEmpty) :
    Moves (s.Within ids body cls node) (s.registerTransformedMethod cls node m exposure) := by
  intro b u b' h hnode
  obtain ⟨w, b₁, t, v, b₂, b₃, hwrapper, -, hheaders, hplaced, hnone, hfinish⟩ :=
    registerTransformedMethod_ok h
  obtain ⟨hwrapped, hw⟩ := run_wrapperOf_needed ids body hwrapper
    (hneeds (hm.boundInWrapper_of_transformed htransformed)) hnode
  have hheaded : s.LedgerRun ids body b₁ b₂ :=
    moves_addHeaders_noted (P := fun _ => True) _ _ _ _ hheaders trivial
  have hw₂ := (kept_of_run hheaded).wrapper cls w hw
  have hstanding : s.LedgerRun ids body b₂ b₃ := by
    cases hkind : m.standIn? s.graph t exposure with
    | none =>
      rw [hnone hkind]
      exact refl_of (s.LedgerRun ids body) b₂
    | some kind =>
      obtain ⟨n, hplace⟩ := hplaced kind hkind
      exact (run_place_wrapper ids body hplace (standIn?_quiet hkind) hw₂).1
  have hbefore := (hwrapped.trans hheaded).trans hstanding
  exact hbefore.trans (run_finishTransformedMethod ids body hfinish hm
    ((kept_of_run hstanding).wrapper cls w hw₂) ((kept_of_run hbefore).classNodes hnode))

/-- A method is bound by a run, if the class needs a wrapper class wherever the method is bound
through one. -/
theorem within_registerMethod (hneeds : s.graph.BoundInWrapper id → s.NeedsWrapper cls) :
    Moves (s.Within ids body cls node) (s.registerMethod cls node id) := by
  intro b u b' h hnode
  rcases registerMethod_ok h with ⟨rfl, -⟩ | ⟨m, b₁, rfl, hm, hmethod, hregister⟩
  · exact refl_of (s.LedgerRun ids body) _
  · have haside := s.aside_method _ _ _ _ _ _ _ hmethod
    have hnode₁ : (cls, node) ∈ b₁.classNodes := haside.classNodes ▸ hnode
    refine (LedgerRun.of_aside haside).trans ?_
    rcases hregister with ⟨-, hregister⟩ | ⟨htransformed, hregister⟩
    · exact within_registerPlainMethod hm hneeds rfl _ _ _ hregister hnode₁
    · exact within_registerTransformedMethod hm hneeds htransformed _ _ _ hregister hnode₁

/-! ### Operators -/

theorem enters_registerMemberOperator :
    Moves (s.Enters ids body node) (s.registerMemberOperator cls node id) := by
  unfold registerMemberOperator
  split
  · next c hc _ =>
    have hclass := not_isClass_of_callable (DeclGraph.callable?_eq_some_iff.mp hc)
    split
    · exact enters_placed ⟨Bool.false_ne_true, rfl⟩ hclass
    · exact Moves.pure _
  · exact Moves.pure _

/-- The owner of an operator is a class that has been registered. -/
theorem site_of_operatorOwner? {c : Callable} (h : operatorOwner? b c = some (cls, node)) :
    b.Site body node := by
  obtain ⟨a, -, hfound⟩ := List.exists_of_findSome?_eq_some h
  split at hfound
  · obtain ⟨n, hn, heq⟩ := Option.map_eq_some_iff.mp hfound
    cases heq
    exact .inr ⟨_, mem_classNodes_of_classNode? hn⟩
  · cases hfound

theorem run_registerFreeOperator {c : Callable} {symbol : String} {u : PUnit} (ids : List DeclId)
    (body : NodeId) (h : (s.registerFreeOperator id c symbol).run b = .ok (u, b'))
    (hclass : ¬ s.graph.isClass id) : s.LedgerRun ids body b b' := by
  unfold registerFreeOperator at h
  obtain ⟨b₁, b₂, hget, h⟩ := run_bind_eq_ok.mp h
  obtain ⟨rfl, rfl⟩ := run_get_eq_ok.mp hget
  split at h
  · exact .of_aside (s.aside_warn _ _ _ _ _ h)
  · next cls node howner =>
    split at h
    · obtain ⟨-, rfl⟩ := run_pure_eq_ok.mp h
      exact refl_of (s.LedgerRun ids body) _
    · refine enters_placed ?_ hclass _ _ _ h (site_of_operatorOwner? howner)
      exact ⟨Bool.false_ne_true, rfl⟩

theorem enters_registerCast : Moves (s.Enters ids body node) (s.registerCast node id) := by
  unfold registerCast
  split
  · next c hc _ =>
    have hclass := not_isClass_of_callable (DeclGraph.callable?_eq_some_iff.mp hc)
    split
    · split
      · exact moves_of_aside (s.aside_warn _ _)
      · exact enters_placed ⟨Bool.false_ne_true, rfl⟩ hclass
    · split
      · exact Moves.pure _
      · exact enters_placed ⟨Bool.false_ne_true, rfl⟩ hclass
  · exact Moves.pure _

/-! ### Enumerations and variables -/

theorem enters_registerEnum (hclass : ¬ s.graph.isClass id) (enumerators : List Enumerator) :
    Moves (s.Enters ids body node) (s.registerEnum node id enumerators) := by
  unfold registerEnum
  extract_lets config names values register
  have hregister : ∀ kind : NodeKind, kind.Quiet →
      Moves (s.Enters ids body node) (register kind) := fun kind hkind => enters_placed hkind hclass
  split
  · rw [pure_bind]
    exact hregister _ ⟨Bool.false_ne_true, rfl⟩
  · refine (moves_of_aside (s.aside_pythonName id)).bind fun name => ?_
    rw [pure_bind]
    exact hregister _ ⟨Bool.false_ne_true, rfl⟩

theorem within_registerMemberVariable {v : VariableDecl} (hclass : ¬ s.graph.isClass id)
    (hneeds : v.bits.isSome ∨ s.pointsToClass v → s.NeedsWrapper cls) :
    Moves (s.Within ids body cls node) (s.registerMemberVariable cls node id v) := by
  unfold registerMemberVariable
  refine (moves_of_aside (s.aside_pythonName id)).bind fun pythonName => ?_
  split
  · exact within_of_enters (enters_placed ⟨Bool.false_ne_true, rfl⟩ hclass)
  · next hindirect =>
    have hneeds := hneeds (by
      cases hbits : v.bits with
      | none => exact .inr (by simpa [hbits] using hindirect)
      | some n => exact .inl rfl)
    intro b u b' h hnode
    obtain ⟨w, b₁, hwrapper, h⟩ := run_bind_eq_ok.mp h
    obtain ⟨hwrapped, hw⟩ := run_wrapperOf_needed ids body hwrapper hneeds hnode
    obtain ⟨n, b₂, haccessor, h⟩ := run_bind_eq_ok.mp h
    obtain ⟨hplaced, hchild, hdecl, hkind⟩ :=
      run_place_wrapper ids body haccessor ⟨Bool.false_ne_true, rfl⟩ hw
    have hbefore := hwrapped.trans hplaced
    have hnode₂ := (kept_of_run hbefore).classNodes hnode
    have hgrounded : ∀ name, (NodeKind.accessor _).Defines name →
        b₂.Grounded body node id (w.name ++ "::" ++ name) := fun name =>
      .member hnode₂ ((kept_of_run hplaced).wrapper cls w hw) hchild hdecl hkind
    obtain ⟨n', b₃, hproperty, h⟩ := run_bind_eq_ok.mp h
    obtain ⟨rfl, t, ht, rfl⟩ := place_ok hproperty
    refine hbefore.trans (run_entered (placedAs_of_adopt ht) Bool.false_ne_true (fun r hr => ?_)
      (.inr ⟨cls, hnode₂⟩) hclass (refl_of Aside _) h)
    rcases List.mem_cons.mp hr with rfl | hr
    · exact hgrounded _ (NodeKind.defines_getter _)
    · dsimp only at hr
      split at hr
      · cases hr
      · next hwritten =>
        rw [List.mem_singleton.mp hr]
        exact hgrounded _ (NodeKind.defines_setter hwritten)

/-! ### Constructors and texts of the user -/

/-- The constructors that are bound are functions of the class. -/
theorem not_isClass_of_callableConstructors {ctors : List (DeclId × Callable)}
    (h : s.callableConstructors cls = .ok ctors) : ∀ p ∈ ctors, ¬ s.graph.isClass p.1 := by
  intro p hp
  obtain ⟨hcallable, -⟩ := (Except.mem_filterM h).mp hp
  exact not_isClass_of_callable
    (DeclGraph.callable?_eq_some_iff.mp (DeclGraph.mem_callables.mp hcallable).2)

theorem castingConversion?_quiet {c : Callable} {kind : NodeKind}
    (h : s.castingConversion? cls c = some kind) : kind.Quiet := by
  unfold castingConversion? at h
  split at h
  · obtain ⟨-, h⟩ := Option.ite_none_right_eq_some.mp h
    cases h
    exact ⟨Bool.false_ne_true, rfl⟩
  · cases h

theorem enters_registerConstructor {position : Nat} {ctor : DeclId × Callable}
    (hclass : ¬ s.graph.isClass ctor.1) :
    Moves (s.Enters ids body node) (s.registerConstructor cls node position ctor) := by
  intro b next b' h hsite
  unfold registerConstructor at h
  dsimp only at h
  split at h
  · obtain ⟨u, b₁, hwarn, h⟩ := run_bind_eq_ok.mp h
    obtain ⟨-, rfl⟩ := run_pure_eq_ok.mp h
    exact .of_aside (s.aside_warn _ _ _ _ _ hwarn)
  · obtain ⟨n, b₁, hplace, h⟩ := run_bind_eq_ok.mp h
    obtain ⟨rfl, t, ht, rfl⟩ := placeAt_ok hplace
    obtain ⟨u, b₂, hmark, h⟩ := run_bind_eq_ok.mp h
    have hentered : s.LedgerRun ids body b b₂ := run_entered (placedAs_of_adoptAt ht)
      Bool.false_ne_true (grounded_of_quiet ⟨Bool.false_ne_true, rfl⟩) hsite hclass
      (refl_of Aside _) hmark
    have hexported : ctor.1 ∈ b₂.exported := by
      obtain rfl := run_modify_eq_ok.mp hmark
      exact List.mem_append_right _ (List.mem_singleton_self _)
    split at h
    · next conversion hconversion =>
      obtain ⟨n, b₃, hplace, h⟩ := run_bind_eq_ok.mp h
      obtain ⟨-, rfl⟩ := run_pure_eq_ok.mp h
      refine hentered.trans (run_place_bound ids body hplace (castingConversion?_quiet hconversion)
        (.inl (hsite.kept (kept_of_run hentered))) fun id hid => .inl ?_)
      exact Option.some.inj hid ▸ hexported
    · obtain ⟨-, rfl⟩ := run_pure_eq_ok.mp h
      exact hentered

/-- The constructors of a wrapper class have no nodes below them, and refer to nothing. -/
theorem wrapperConstructors_quiet {wrapper : String} {ctors : List (DeclId × Callable)}
    {kinds : List NodeKind} (h : s.wrapperConstructors cls wrapper ctors = .ok kinds) :
    ∀ kind ∈ kinds, kind.Quiet := by
  intro kind hkind
  have hfits := fits_wrapperConstructors h kind hkind (fun _ => True) default none
  cases kind with
  | module | moduleBody | cls | wrapper => exact hfits.elim
  | maker | property =>
    obtain ⟨_, hnone, -⟩ := hfits
    cases hnone
  | _ => exact ⟨Bool.false_ne_true, rfl⟩

/-- The constructors of a wrapper class are placed in it. -/
theorem moves_placeConstructors {kinds : List NodeKind} (hkinds : ∀ kind ∈ kinds, kind.Quiet) :
    Moves (s.RunFrom ids body fun b => b.IsWrapper p)
      (kinds.zipIdx.forM fun (kind, i) => do let _ ← placeAt p i kind (some cls)) := by
  refine Moves.forM _ fun q hq => ?_
  obtain ⟨kind, i⟩ := q
  refine Moves.bind (fun b n b' h hp => ?_) fun _ => Moves.pure _
  have hkind := hkinds kind (List.fst_mem_of_mem_zipIdx hq)
  exact run_placeAt_bound ids body h hkind (.inr (.inl hp)) fun _ _ => .inr hp

theorem enters_registerConstructors :
    Moves (s.Enters ids body node) (s.registerConstructors cls node) := by
  intro b u b' h hsite
  unfold registerConstructors at h
  obtain ⟨b₁, b₂, hget, h⟩ := run_bind_eq_ok.mp h
  obtain ⟨rfl, rfl⟩ := run_get_eq_ok.mp hget
  obtain ⟨ctors, b₂, hctors, h⟩ := run_bind_eq_ok.mp h
  obtain ⟨hok, rfl⟩ := run_lift_missing_eq_ok.mp hctors
  have hclass := not_isClass_of_callableConstructors hok
  extract_lets fill withArgs at h
  -- the constructors of the wrapper class come behind those of the class, if there is one
  have hfill : ∀ b₂ u b', (fill ()).run b₂ = .ok (u, b') → Kept b b₂ →
      s.LedgerRun ids body b₂ b' := by
    intro b₂ u b' h hkept
    unfold fill at h
    split at h
    · next w hw =>
      obtain ⟨kinds, b₃, hlift, h⟩ := run_bind_eq_ok.mp h
      obtain ⟨hkinds, rfl⟩ := run_lift_missing_eq_ok.mp hlift
      exact moves_placeConstructors (wrapperConstructors_quiet hkinds) _ _ _ h
        ⟨cls, w, hkept.wrapper cls w hw, rfl⟩
    · obtain ⟨-, rfl⟩ := run_pure_eq_ok.mp h
      exact refl_of (s.LedgerRun ids body) _
  split at h
  · exact hfill _ _ _ h (refl_of Kept _)
  · obtain ⟨next, b₂, hfold, h⟩ := run_bind_eq_ok.mp h
    have hbound : s.LedgerRun ids body b b₂ := by
      refine (?_ : Moves (s.Enters ids body node) _) _ _ _ hfold hsite
      refine Moves.foldlM _ _ fun position ctor hctor => ?_
      exact enters_registerConstructor (hclass ctor (List.mem_of_mem_filter hctor))
    exact hbound.trans (hfill _ _ _ h (kept_of_run hbound))

theorem moves_addCustomTexts_noted {P : Binder → Prop} [Lasting P] {parent : NodeId}
    (hinside : ∀ b, P b → b.Inside body parent) (worksOnInstance : Bool) (texts : List String) :
    Moves (s.RunFrom ids body P) (addCustomTexts parent worksOnInstance texts) := by
  refine Moves.forM texts fun _ _ => (moves_place_none ?_ hinside).bind fun _ => Moves.pure _
  exact ⟨Bool.false_ne_true, rfl⟩

/-! ### Classes -/

theorem within_finishClass : Moves (s.Within ids body cls node) (s.finishClass cls node) := by
  unfold finishClass
  refine (within_of_enters enters_registerConstructors).bind fun _ => ?_
  refine (moves_of_aside (aside_takeStatic node)).bind fun names => ?_
  have hinside : ∀ b : Binder, (cls, node) ∈ b.classNodes → b.Inside body node :=
    fun _ h => .inl (.inr ⟨cls, h⟩)
  refine Moves.bind (Moves.forIn (fun name _ => ?_) _ _) fun _ =>
    moves_addCustomTexts_noted hinside _ _
  refine (moves_place_none ?_ hinside).bind fun _ => Moves.pure _
  exact ⟨Bool.false_ne_true, rfl⟩

/-- The rest of a class is bound by a run, behind the wrapper class that the user may ask for. -/
theorem run_completeClass {u : PUnit} (ids : List DeclId) (body : NodeId)
    (h : (s.completeClass cls node).run b = .ok (u, b')) (hnode : (cls, node) ∈ b.classNodes) :
    s.LedgerRun ids body b b' ∧
      ((s.graph.config cls).wrapperCode ≠ [] → ∃ w, b'.wrapper? cls = some w) := by
  rw [completeClass_eq] at h
  split at h
  · next hcode =>
    exact ⟨within_finishClass _ _ _ h hnode, fun hne => absurd (List.isEmpty_iff.mp hcode) hne⟩
  · next hcode =>
    have hneeds : s.NeedsWrapper cls := .code (by simpa using hcode)
    obtain ⟨w, b₁, hwrapper, h⟩ := run_bind_eq_ok.mp h
    obtain ⟨hwrapped, hw⟩ := run_wrapperOf_needed ids body hwrapper hneeds hnode
    obtain ⟨v, b₂, htexts, h⟩ := run_bind_eq_ok.mp h
    have hwritten : s.LedgerRun ids body b₁ b₂ :=
      moves_addCustomTexts_noted (P := fun b => b.IsWrapper w.node) (fun _ h => .inr (.inl h)) _ _
        _ _ _ htexts ⟨cls, w, hw, rfl⟩
    have hfinished := hwritten.trans (within_finishClass _ _ _ h
      ((kept_of_run (hwrapped.trans hwritten)).classNodes hnode))
    exact ⟨hwrapped.trans hfinished, fun _ => ⟨w, (kept_of_run hfinished).wrapper cls w hw⟩⟩

/-- A member that is no class is bound by a run. -/
theorem within_registerMember {nested : NodeId → DeclId → ClassDecl → Binding Unit}
    (hmember : s.BindsMember cls id) (hclass : ¬ s.graph.isClass id) :
    Moves (s.Within ids body cls node) (s.registerMember nested cls node id) := by
  by_cases hmethod : s.graph.isMethod id
  · rw [registerMember_of_isMethod hmethod]
    exact within_registerMethod fun hbound => .method hmember hmethod hbound
  unfold registerMember
  split
  · next c hkind => exact absurd (DeclGraph.isClass_iff.mpr ⟨c, hkind⟩) hclass
  · exact within_of_enters (enters_registerEnum hclass _)
  · next v hkind => exact within_registerMemberVariable hclass fun hv => .variable hmember hkind hv
  · next c hkind =>
    have hno : ¬ c.isMethod := fun hc => hmethod (DeclGraph.isMethod_iff.mpr
      ⟨c, DeclGraph.callable?_eq_some_iff.mpr hkind, hc⟩)
    unfold Callable.isMethod at hno
    cases hc : c.kind with
    | constructor _ _ | destructor => exact Moves.pure _
    | castingOperator => exact within_of_enters enters_registerCast
    | memberOperator symbol =>
      rw [hc] at hno
      dsimp only at hno ⊢
      rw [if_neg hno]
      exact within_of_enters enters_registerMemberOperator
    | _ =>
      rw [hc] at hno
      exact absurd rfl hno
  · exact Moves.pure _

/-- A class is filled by a run, if the classes nested in it are bound by runs.  Its members, and the
functions of its bases, are bound one after the other, and what has been bound stays. -/
theorem run_fillClass {nested : NodeId → DeclId → ClassDecl → Binding Unit} {u : PUnit}
    (hnested : ∀ id c, s.graph.kind? id = some (.cls c) → s.BindsMember cls id →
      Moves (s.Enters ids body node) (nested node id c))
    (h : (s.fillClass nested cls node).run b = .ok (u, b')) (hnode : (cls, node) ∈ b.classNodes) :
    s.LedgerRun ids body b b' ∧
      (∀ m, s.BindsMember cls m → ∃ b₁ b₂ v, (cls, node) ∈ b₁.classNodes ∧
        (s.registerMember nested cls node m).run b₁ = .ok (v, b₂) ∧ Kept b₂ b') ∧
      (∀ found, s.inheritedMethods cls = .ok found → ∀ m ∈ found, ∃ b₁ b₂ v,
        (s.registerMethod cls node m).run b₁ = .ok (v, b₂) ∧ Kept b₂ b') ∧
      ((s.graph.config cls).wrapperCode ≠ [] → ∃ w, b'.wrapper? cls = some w) := by
  obtain ⟨members, found, b₁, b₂, _, _, hmembers, hfound, hown, hinherited, hcomplete⟩ :=
    fillClass_ok h
  have hmember : ∀ id ∈ members,
      Moves (s.Within ids body cls node) (s.registerMember nested cls node id) := by
    intro id hid
    have hbinds := (mem_boundMembers_iff hmembers).mp hid
    by_cases hclass : s.graph.isClass id
    · obtain ⟨c, hkind⟩ := DeclGraph.isClass_iff.mp hclass
      rw [registerMember_cls hkind]
      exact within_of_enters (hnested id c hkind hbinds)
    · exact within_registerMember hbinds hclass
  have hmethod : ∀ id ∈ found, Moves (s.Within ids body cls node) (s.registerMethod cls node id) :=
    fun id hid => within_registerMethod fun _ => .inherited hfound (List.ne_nil_of_mem hid)
  have hbound := Moves.forM members hmember _ _ _ hown hnode
  have hnode₁ := (kept_of_run hbound).classNodes hnode
  have hagain := Moves.forM found hmethod _ _ _ hinherited hnode₁
  obtain ⟨hcompleted, hcode⟩ :=
    run_completeClass ids body hcomplete ((kept_of_run hagain).classNodes hnode₁)
  refine ⟨(hbound.trans hagain).trans hcompleted, fun m hm => ?_, fun found' hfound' m hm => ?_,
    hcode⟩
  · obtain ⟨b₃, b₄, v, hnode₃, hrun, hkept⟩ :=
      exists_kept_of_forM hmember hown hnode ((mem_boundMembers_iff hmembers).mpr hm)
    exact ⟨b₃, b₄, v, hnode₃, hrun,
      trans_of Kept hkept (kept_of_run (hagain.trans hcompleted))⟩
  · obtain rfl : found = found' := Except.ok.inj (hfound.symm.trans hfound')
    obtain ⟨b₃, b₄, v, -, hrun, hkept⟩ := exists_kept_of_forM hmethod hinherited hnode₁ hm
    exact ⟨b₃, b₄, v, hrun, trans_of Kept hkept (kept_of_run hcompleted)⟩

/-- A class is bound by noting its registration, filling it, and changing it once more. -/
theorem registerClass_noted {depth : Nat} {c : ClassDecl} {u : PUnit}
    (hkind : s.graph.kind? cls = some (.cls c)) (hadmitted : s.Admitted ids cls)
    (h : (s.registerClass (depth + 1) p cls c).run b = .ok (u, b')) (hsite : b.Site body p) :
    ∃ b₁ b₂ v node, s.LedgerRun ids body b b₁ ∧ (cls, node) ∈ b₁.classNodes ∧ cls ∈ b₁.exported ∧
      (s.fillClass (fun p id c => s.registerClass depth p id c) cls node).run b₁ = .ok (v, b₂) ∧
      s.LedgerRun ids body b₂ b' := by
  obtain ⟨r, b₁, t, b₂, v, hnode, hplaced, hfill, hupdate⟩ := registerClass_eq_ok h
  obtain ⟨haside, hbases, hnone, hexposer⟩ := classNode_fields hnode
  have hbefore : s.LedgerRun ids body b b₁ := .of_aside haside
  have hregistered := hbefore.tail (.register hplaced (hsite.kept (kept_of_run hbefore))
    hadmitted hkind hbases hnone hexposer)
  obtain ⟨t', rfl, haltered⟩ := updateClass_ok hupdate
  exact ⟨_, b₂, v, b₁.tree.size, hregistered, List.mem_cons_self,
    List.mem_append_right _ (List.mem_singleton_self cls), hfill, (LedgerStep.noInit haltered).run⟩

/-- **A class that is admitted is bound by a run, with all that is bound for it.** -/
theorem enters_registerClass (s : BindingSetup) (ids : List DeclId) (body : NodeId) :
    ∀ (depth : Nat) (p : NodeId) (cls : DeclId) (c : ClassDecl),
      s.graph.kind? cls = some (.cls c) → s.Admitted ids cls →
        Moves (s.Enters ids body p) (s.registerClass depth p cls c)
  | 0, _, _, _, _, _ => Moves.pure _
  | depth + 1, p, cls, c, hkind, hadmitted => by
    intro b u b' h hsite
    obtain ⟨b₁, b₂, v, node, hbefore, hnode, -, hfill, hafter⟩ :=
      registerClass_noted hkind hadmitted h hsite
    have hclass : s.graph.isClass cls := DeclGraph.isClass_iff.mpr ⟨c, hkind⟩
    have hnested : ∀ id c', s.graph.kind? id = some (.cls c') → s.BindsMember cls id →
        Moves (s.Enters ids body node) (s.registerClass depth node id c') :=
      fun id c' hkind' hmember => s.enters_registerClass ids body depth node id c' hkind'
        (.member hadmitted hclass hmember)
    have hfilled := (run_fillClass hnested hfill hnode).1
    exact (hbefore.trans hfilled).trans hafter

/-! ### Declarations outside of classes -/

section

variable {α : Type} {m : Binding α} {u : PUnit}

/-- What is bound in the body of the module is bound by a run. -/
theorem moves_body (h : Moves (s.Enters ids body body) m) : Moves (s.LedgerRun ids body) m :=
  fun b a b' hrun => h b a b' hrun (.inl rfl)

theorem run_registerPlainFunction {c : Callable} (hclass : ¬ s.graph.isClass id) :
    Moves (s.LedgerRun ids body) (s.registerPlainFunction body id c) := by
  unfold registerPlainFunction
  dsimp only
  refine moves_body ?_
  split
  · exact moves_of_aside (s.aside_warn _ _)
  · refine (moves_of_aside (s.aside_pythonName id)).bind fun _ b u b' h hsite => ?_
    obtain ⟨n, b₁, hplace, h⟩ := run_bind_eq_ok.mp h
    obtain ⟨rfl, t, ht, rfl⟩ := place_ok hplace
    refine run_entered (placedAs_of_adopt ht) Bool.false_ne_true (fun r hr => ?_) hsite hclass
      (refl_of Aside _) h
    obtain ⟨name, hname⟩ := s.graph.exists_fullName_eq id
    rw [List.mem_singleton.mp hr, hname]
    exact .declared name

theorem run_registerTransformedFunction {c : Callable} (hclass : ¬ s.graph.isClass id) :
    Moves (s.LedgerRun ids body) (s.registerTransformedFunction body id c) := by
  unfold registerTransformedFunction
  dsimp only
  refine moves_body ((moves_of_aside (s.aside_pythonName id)).bind fun pythonName => ?_)
  refine (Moves.lift_transform _).bind fun t => ?_
  split
  · exact moves_of_aside (s.aside_warn _ _)
  · refine (moves_of_aside (aside_freshIn _ _)).bind fun name b u b' h hsite => ?_
    obtain ⟨adapter, b₁, hadapter, h⟩ := run_bind_eq_ok.mp h
    obtain ⟨rfl, t₁, ht₁, rfl⟩ := placeBeforeBody_ok hadapter
    obtain ⟨back, hplaced⟩ := placedAs_of_adoptBeforeBody (by rintro _ ⟨⟩) ht₁
    have hadapted : s.LedgerRun ids body b { b with tree := t₁ } := (LedgerStep.adapter hplaced).run
    obtain ⟨v, b₂, hheaders, h⟩ := run_bind_eq_ok.mp h
    have hheaded : s.LedgerRun ids body { b with tree := t₁ } b₂ :=
      moves_addHeaders_noted (P := fun _ => True) _ _ _ _ hheaders trivial
    have hkept := kept_of_run hheaded
    obtain ⟨n, b₃, hplace, h⟩ := run_bind_eq_ok.mp h
    obtain ⟨rfl, t₂, ht₂, rfl⟩ := place_ok hplace
    refine (hadapted.trans hheaded).trans (run_entered (placedAs_of_adopt ht₂)
      Bool.false_ne_true (fun r hr => ?_) (hsite.kept (kept_of_run (hadapted.trans hheaded)))
      hclass (refl_of Aside _) h)
    -- the registration refers to the adapter, which is still there
    have hnew : b.tree.size ∈ t₁.children root := by
      rw [hplaced.after]
      exact List.mem_append_right _ List.mem_cons_self
    have hkind := (hplaced.kinds b.tree.size).trans (if_pos rfl)
    have hdecl := (hkept.tree.decl b.tree.size (by rw [hkind]; rfl)).trans
      ((hplaced.decls b.tree.size).trans (if_pos rfl))
    have hgrounded : b₂.Grounded body body id _ := .adapter rfl (hkept.tree.child _ _ hnew) hdecl
      (hkept.tree.kind_of_ne hkind fun _ h => nomatch h)
    exact List.mem_singleton.mp hr ▸ hgrounded

/-- **A declaration outside of classes is bound by a run.** -/
theorem moves_register_noted (hid : id ∈ ids) :
    Moves (s.LedgerRun ids body) (s.register body id) := by
  intro b u b' h
  unfold register at h
  obtain ⟨exportable, b₁, hlift, h⟩ := run_bind_eq_ok.mp h
  obtain ⟨hexportable, rfl⟩ := run_lift_missing_eq_ok.mp hlift
  have hclass : ∀ kind, s.graph.kind? id = some kind → (∀ c, kind ≠ .cls c) →
      ¬ s.graph.isClass id := fun _ => DeclGraph.not_isClass_of_kind?
  refine (?_ : Moves (s.LedgerRun ids body) _) _ _ _ h
  split
  · next htrue =>
    split
    · next c hkind =>
      exact moves_body (s.enters_registerClass ids body _ _ _ _ hkind
        (.module hid (htrue ▸ hexportable)))
    · next values hkind =>
      exact moves_body (enters_registerEnum (hclass _ hkind fun _ h => nomatch h) _)
    · next v hkind =>
      refine moves_body ((moves_of_aside (s.aside_pythonName id)).bind fun _ => ?_)
      exact enters_placed ⟨Bool.false_ne_true, rfl⟩ (hclass _ hkind fun _ h => nomatch h)
    · next c hkind =>
      have hfunction := not_isClass_of_callable hkind
      split
      · split
        · exact run_registerPlainFunction hfunction
        · exact run_registerTransformedFunction hfunction
      · exact fun _ _ _ h => run_registerFreeOperator ids body h hfunction
      · exact Moves.pure _
    · exact Moves.pure _
  · exact Moves.pure _

/-! ### Containers and headers -/

/-- A container is placed with its entry, and what is placed in it is about the container. -/
theorem run_registerContainer {position : Nat} {fullName : String} {kind : ContainerKind}
    (h : (s.registerContainer body position fullName id kind).run b = .ok (u, b'))
    (hstd : s.graph.isStd id) : s.LedgerRun ids body b b' := by
  unfold registerContainer at h
  obtain ⟨pythonName, b₁, hname, h⟩ := run_bind_eq_ok.mp h
  obtain ⟨exposer, b₂, hexposer, h⟩ := run_bind_eq_ok.mp h
  have hnamed : s.LedgerRun ids body b b₂ := .of_aside
    (trans_of Aside (s.aside_pythonName _ _ _ _ hname) (s.aside_exposer _ _ _ _ hexposer))
  obtain ⟨node, b₃, hplace, h⟩ := run_bind_eq_ok.mp h
  obtain ⟨rfl, t, ht, rfl⟩ := placeAt_ok hplace
  obtain ⟨suite, b₄, hsuite, h⟩ := run_bind_eq_ok.mp h
  obtain ⟨rfl, t', ht', rfl⟩ := place_ok hsuite
  obtain ⟨v, b₅, hheaders, h⟩ := run_bind_eq_ok.mp h
  obtain ⟨t'', rfl, hshape, hunwritten⟩ := addHeaders_ok hheaders
  obtain rfl := run_modify_eq_ok.mp h
  -- the entry may come first, as nothing in between looks at it
  have hplaced := hnamed.tail (.container (placedAs_of_adoptAt ht) hstd rfl
    (run_identifier hexposer).1)
  have hkind := ((placedAs_of_adoptAt ht).kinds b₂.tree.size).trans (if_pos rfl)
  have hfilled := hplaced.tail (.place (placedAs_of_adopt ht') ⟨Bool.false_ne_true, rfl⟩
    (.inr (.inr ⟨_, hkind⟩)) fun c hc =>
      .inl (Option.some.inj hc ▸ List.mem_append_right _ (List.mem_singleton_self _)))
  exact hfilled.tail (.alike hshape hunwritten)

theorem moves_registerContainers_noted :
    Moves (s.LedgerRun ids body) (s.registerContainers body) := by
  unfold registerContainers
  refine Moves.get.bind fun b => ?_
  refine Moves.forM _ fun q hq => ?_
  obtain ⟨⟨fullName, id, kind⟩, position⟩ := q
  exact fun _ _ _ h => run_registerContainer h
    (isStdClass_of_mem_usedContainers (List.fst_mem_of_mem_zipIdx hq)).2

theorem moves_includeHeaders_noted : Moves (s.LedgerRun ids body) s.includeHeaders := by
  unfold includeHeaders
  refine Moves.get.bind fun b => ?_
  refine (Moves.lift_tree _).bind fun headers => ?_
  refine Moves.forM headers fun header _ b c b' h => ?_
  obtain ⟨t, ht, rfl⟩ := editTree_ok h
  split at ht
  · next hadd =>
    cases ht
    rcases addInclude_ok hadd with ⟨-, rfl⟩ | ⟨hnot, back, hplaced⟩
    · exact refl_of (s.LedgerRun ids body) _
    · exact (LedgerStep.header hplaced hnot).run
  · cases ht

/-- All declarations are bound by a run, and headers are included in the end. -/
theorem run_bindAll_noted {u : PUnit} (h : (s.bindAll body ids).run b = .ok (u, b')) :
    ∃ b₁ v, s.LedgerRun ids body b b₁ ∧ s.includeHeaders.run b₁ = .ok (v, b') := by
  obtain ⟨b₁, b₂, v, w, hregister, hcontainers, hinclude⟩ := bindAll_ok h
  have hbound := Moves.forM ids (fun id hid => s.moves_register_noted hid) _ _ _ hregister
  exact ⟨b₂, u, hbound.trans (moves_registerContainers_noted _ _ _ hcontainers), hinclude⟩

/-- **A module is bound by a run.** -/
theorem moves_bindAll_noted : Moves (s.LedgerRun ids body) (s.bindAll body ids) := by
  intro b u b' h
  obtain ⟨b₁, v, hbound, hinclude⟩ := run_bindAll_noted h
  exact hbound.trans (moves_includeHeaders_noted _ _ _ hinclude)

end

end BindingSetup

end Bindery
