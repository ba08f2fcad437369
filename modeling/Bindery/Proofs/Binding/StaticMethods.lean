import Bindery.Proofs.Binding.Completion
import Bindery.Proofs.Binding.StaticRoles

/-!
# Statements about static functions

Every class in a module that is bound states which of its functions are static: one statement for
each name, behind everything that is bound for the class but the texts of the user.

## Main definitions

* `Asks` — what is under way stays so, with its account of static functions.
* `BindingSetup.StatesStatics` — the statements of a registration.

## Main results

* `asks_registerMaker` — a function is registered, and its name is noted if it is static.
* `asks_registerClass` — **a class is registered with its statements.**
* `bind_statesStatics` — **in a module that is bound every class states which functions are
  static.**
-/

namespace Bindery

open Binding Binder CodeTree

/-! ### What is noted aside -/

namespace Binding

theorem idle_identifier (name : String) : Moves Idle (identifier name) := by
  intro b mangled b' h
  obtain ⟨-, rfl⟩ := BindingSetup.run_identifier h
  exact ⟨rfl, rfl, rfl⟩

theorem idle_freshIn (scope wanted : String) : Moves Idle (freshIn scope wanted) := by
  intro b name b' h
  obtain rfl := (Prod.mk.inj (run_modifyGet_eq_ok.mp h)).2
  exact ⟨rfl, rfl, rfl⟩

theorem idle_markExported (id : DeclId) : Moves Idle (markExported id) := by
  intro b u b' h
  obtain rfl := run_modify_eq_ok.mp h
  exact ⟨rfl, rfl, rfl⟩

end Binding

namespace BindingSetup

variable {s : BindingSetup} {cls id : DeclId}

theorem idle_warn (s : BindingSetup) (id : DeclId) (message : String) :
    Moves Idle (s.warn id message) := by
  intro b u b' h
  obtain rfl := run_modify_eq_ok.mp h
  exact ⟨rfl, rfl, rfl⟩

theorem idle_pythonName (s : BindingSetup) (id : DeclId) : Moves Idle (s.pythonName id) := by
  unfold pythonName
  refine (Moves.lift_missing _).bind fun name => ?_
  split
  · exact Moves.pure name
  · exact idle_identifier name

theorem idle_methodAlias (s : BindingSetup) (id : DeclId) (c : Callable) :
    Moves Idle (s.methodAlias id c) := by
  unfold methodAlias
  split
  · exact Moves.pure _
  · exact s.idle_pythonName id

theorem idle_method (s : BindingSetup) (cls id : DeclId) (d : Declaration) (c : Callable) :
    Moves Idle (s.method cls id d c) := by
  unfold method
  exact (s.idle_methodAlias id c).bind fun _ => Moves.pure _

theorem idle_classNode (s : BindingSetup) (cls : DeclId) (c : ClassDecl) :
    Moves Idle (s.classNode cls c) := by
  unfold classNode
  refine (Moves.lift_missing _).bind fun bases => ?_
  refine (s.idle_pythonName cls).bind fun pythonName => ?_
  refine (idle_identifier _).bind fun exposer => ?_
  exact (Moves.lift_missing _).bind fun noncopyable => Moves.pure _

end BindingSetup

/-! ### What keeps the account -/

/-- What is under way stays so, with its account of static functions. -/
def Asks (g : DeclGraph) (frames ongoing : List NodeId) (b b' : Binder) : Prop :=
  Asking g frames ongoing b → Asking g frames ongoing b'

variable {g : DeclGraph} {frames ongoing : List NodeId} {p node : NodeId} {kind : NodeKind}
  {decl : Option DeclId} {α : Type} {m : Binding α}

instance : IsPreorder Binder (Asks g frames ongoing) where
  refl _ hb := hb
  trans _ _ _ h h' hb := h' (h hb)

theorem asks_of_idle (h : Moves Idle m) : Moves (Asks g frames ongoing) m :=
  fun b a b' hrun hb => hb.idle (h b a b' hrun)

/-- The node is of no consequence for static functions. -/
def NodeKind.IsNeutral (g : DeclGraph) (decl : Option DeclId) (kind : NodeKind) : Prop :=
  (∀ r, kind ≠ .cls r) ∧
    (kind.staticRole g decl = .plain ∨ kind.staticRole g decl = .trails)

theorem asks_placeAt_frame {position : Nat} (hp : p ∈ frames) (hkind : ∀ r, kind ≠ .cls r) :
    Moves (Asks g frames ongoing) (placeAt p position kind decl) := by
  intro b n b' h hb
  obtain ⟨rfl, t, ht, rfl⟩ := placeAt_ok h
  exact hb.placed (placedAs_of_adoptAt ht) hkind (.inl hp)

theorem asks_placeAt {position : Nat} (hp : p ∈ ongoing) (hkind : kind.IsNeutral g decl) :
    Moves (Asks g frames ongoing) (placeAt p position kind decl) := by
  intro b n b' h hb
  obtain ⟨rfl, t, ht, rfl⟩ := placeAt_ok h
  exact hb.placed (placedAs_of_adoptAt ht) hkind.1 (.inr (.inl ⟨hkind.2, hp⟩))

theorem asks_place_frame (hp : p ∈ frames) (hkind : ∀ r, kind ≠ .cls r) :
    Moves (Asks g frames ongoing) (place p kind decl) := by
  intro b n b' h hb
  obtain ⟨rfl, t, ht, rfl⟩ := place_ok h
  exact hb.placed (placedAs_of_adopt ht) hkind (.inl hp)

theorem asks_place (hp : p ∈ frames ∨ p ∈ ongoing) (hkind : kind.IsNeutral g decl) :
    Moves (Asks g frames ongoing) (place p kind decl) := by
  intro b n b' h hb
  obtain ⟨rfl, t, ht, rfl⟩ := place_ok h
  exact hb.placed (placedAs_of_adopt ht) hkind.1 (hp.imp_right fun hp => .inl ⟨hkind.2, hp⟩)

/-- What may come behind statements may come last to any node. -/
theorem asks_place_trailing (hkind : ∀ r, kind ≠ .cls r)
    (hrole : kind.staticRole g decl = .trails) :
    Moves (Asks g frames ongoing) (place p kind decl) := by
  intro b n b' h hb
  obtain ⟨rfl, t, ht, rfl⟩ := place_ok h
  exact hb.placed (placedAs_of_adopt ht) hkind (.inr (.inr ⟨hrole, rfl⟩))

theorem asks_placeBeforeBody (hroot : root ∈ frames) (hkind : ∀ r, kind ≠ .cls r) :
    Moves (Asks g frames ongoing) (placeBeforeBody kind decl) := by
  intro b n b' h hb
  obtain ⟨rfl, t, ht, rfl⟩ := placeBeforeBody_ok h
  exact hb.placed (placedAs_of_adoptAt ht) hkind (.inl hroot)

theorem asks_addHeaders (p : NodeId) (headers : List String) :
    Moves (Asks g frames ongoing) (addHeaders p headers) := by
  intro b u b' h hb
  obtain ⟨t, rfl, hshape, -⟩ := addHeaders_ok h
  exact hb.still (.of_shape hshape)

namespace BindingSetup

variable {s : BindingSetup} {cls id : DeclId} {body : NodeId}

theorem asks_addCustomTexts (p : NodeId) (worksOnInstance : Bool) (texts : List String) :
    Moves (Asks g frames ongoing) (addCustomTexts p worksOnInstance texts) :=
  Moves.forM texts fun _ _ =>
    (asks_place_trailing (by rintro _ ⟨⟩) rfl).bind fun _ => Moves.pure _

/-- A wrapper class that is asked for is there, and no registration. -/
theorem asking_wrapperOf {b b' : Binder} {w : WrapperClass} (hroot : root ∈ frames)
    (h : (s.wrapperOf cls).run b = .ok (w, b')) (hb : Asking g frames ongoing b) :
    Asking g frames ongoing b' ∧ b'.tree.IsFrame w.node := by
  unfold wrapperOf at h
  obtain ⟨b₁, b₂, hget, h⟩ := run_bind_eq_ok.mp h
  obtain ⟨rfl, rfl⟩ := run_get_eq_ok.mp hget
  split at h
  · next w' hw' =>
    obtain ⟨rfl, rfl⟩ := run_pure_eq_ok.mp h
    exact ⟨hb, hb.isFrame hw'⟩
  · obtain ⟨exposer, b₁, hexposer, h⟩ := run_bind_eq_ok.mp h
    have hb₁ := asks_of_idle (idle_identifier _) _ _ _ hexposer hb
    obtain ⟨node, b₂, hplace, h⟩ := run_bind_eq_ok.mp h
    have hb₂ := asks_placeBeforeBody hroot (by rintro _ ⟨⟩) _ _ _ hplace hb₁
    obtain ⟨b₃, b₄, hget, h⟩ := run_bind_eq_ok.mp h
    obtain ⟨rfl, rfl⟩ := run_get_eq_ok.mp hget
    obtain ⟨rfl, t, ht, rfl⟩ := placeBeforeBody_ok hplace
    have hframe : t.IsFrame b₁.tree.size :=
      ⟨.wrapper _, ((placedAs_of_adoptAt ht).kinds _).trans (if_pos rfl), by rintro _ ⟨⟩⟩
    dsimp only at h
    split at h
    · obtain ⟨u, b₃, hupdate, h⟩ := run_bind_eq_ok.mp h
      obtain ⟨t', rfl, haltered⟩ := updateClass_ok hupdate
      have hstill := haltered.still fun _ => rfl
      have hframe' := hframe.grown (.of_still hstill)
      obtain ⟨v, b₄, hmodify, h⟩ := run_bind_eq_ok.mp h
      obtain rfl := run_modify_eq_ok.mp hmodify
      obtain ⟨rfl, rfl⟩ := run_pure_eq_ok.mp h
      exact ⟨(hb₂.still hstill).wrap hframe', hframe'⟩
    · obtain ⟨v, b₄, hmodify, h⟩ := run_bind_eq_ok.mp h
      obtain rfl := run_modify_eq_ok.mp hmodify
      obtain ⟨rfl, rfl⟩ := run_pure_eq_ok.mp h
      exact ⟨hb₂.wrap hframe, hframe⟩

/-- What is done with a wrapper class may rely on that it is no registration. -/
theorem asks_wrapperOf_bind {f : WrapperClass → Binding α} (hroot : root ∈ frames)
    (hf : ∀ w, Moves (Asks g (w.node :: frames) ongoing) (f w)) :
    Moves (Asks g frames ongoing) (s.wrapperOf cls >>= f) := by
  intro b a b' h hb
  obtain ⟨w, b₁, hwrapper, hrest⟩ := run_bind_eq_ok.mp h
  obtain ⟨hb₁, hframe⟩ := asking_wrapperOf hroot hwrapper hb
  exact (hf w _ _ _ hrest (hb₁.cons_frame hframe)).of_cons_frame

/-! ### Methods -/

theorem Describes.isStaticFunction {m : Method} (h : s.Describes m) :
    s.graph.isStaticFunction m.id = m.callable.isStatic := by
  have hcallable : s.graph.callable? m.id = some m.callable := by
    rw [DeclGraph.callable?, DeclGraph.kind?, h.decl, Option.map_some, h.kind]
  rw [DeclGraph.isStaticFunction, hcallable]
  rfl

/-- **A function is registered, and its name is noted if it is static.** -/
theorem asks_registerMaker {m : Method} {maker : MakerNode} (hm : s.Describes m)
    (hname : maker.pythonName = m.pythonName) (hnode : node ∈ ongoing) :
    Moves (Asks s.graph frames ongoing) (registerMaker node m maker) := by
  intro b u b' h hb
  unfold registerMaker at h
  obtain ⟨n, b₁, hplace, h⟩ := run_bind_eq_ok.mp h
  obtain ⟨rfl, t, ht, rfl⟩ := place_ok hplace
  have hplaced := placedAs_of_adopt ht
  split at h
  · next hstatic =>
    have hfunction := hm.isStaticFunction.trans hstatic
    obtain ⟨v, b₂, hrequest, hmark⟩ := run_bind_eq_ok.mp h
    obtain rfl := run_modify_eq_ok.mp hrequest
    refine asks_of_idle (idle_markExported m.id) _ _ _ hmark ?_
    split
    · next hmem =>
      -- another function of the name has been registered before
      refine hb.request hplaced hnode hfunction hb.once fun e => (or_iff_left_of_imp ?_).symm
      rintro rfl
      exact hname ▸ hmem
    · next hnot =>
      have honce : (b.staticMethods ++ [(node, m.pythonName)]).Nodup :=
        List.concat_eq_append ▸ hb.once.concat hnot
      refine hb.request hplaced hnode hfunction honce fun e => ?_
      rw [hname, List.mem_append, List.mem_singleton]
  · next hstatic =>
    have hrole : (NodeKind.maker maker).staticRole s.graph (some m.id) = .plain :=
      if_neg fun hfunction => hstatic (hm.isStaticFunction.symm.trans hfunction)
    have hb₁ := hb.placed hplaced (by rintro _ ⟨⟩) (.inr (.inl ⟨.inl hrole, hnode⟩))
    exact asks_of_idle (idle_markExported m.id) _ _ _ h hb₁

theorem asks_registerPlainMethod {m : Method} {exposure : Exposure} (hm : s.Describes m)
    (hroot : root ∈ frames) (hnode : node ∈ ongoing) :
    Moves (Asks s.graph frames ongoing) (s.registerPlainMethod cls node m exposure) := by
  have hfinish : ∀ frames wrapper, Moves (Asks s.graph frames ongoing)
      (s.finishPlainMethod node m exposure wrapper) := by
    intro frames wrapper
    unfold finishPlainMethod
    split
    · exact Moves.pure _
    · split
      · exact asks_of_idle (s.idle_warn _ _)
      · exact asks_registerMaker hm rfl hnode
  cases exposure with
  | direct => exact hfinish frames _
  | hidden => exact hfinish frames _
  | shim kind =>
    rw [registerPlainMethod_shim]
    refine asks_wrapperOf_bind hroot fun w => ?_
    exact (asks_place_frame List.mem_cons_self (by rintro _ ⟨⟩)).bind fun _ => hfinish _ w.name

theorem asks_registerTransformedMethod {m : Method} {exposure : Exposure} (hm : s.Describes m)
    (hroot : root ∈ frames) (hnode : node ∈ ongoing) :
    Moves (Asks s.graph frames ongoing) (s.registerTransformedMethod cls node m exposure) := by
  rw [registerTransformedMethod_eq]
  refine asks_wrapperOf_bind hroot fun w => ?_
  have hframe : w.node ∈ w.node :: frames := List.mem_cons_self
  have hfinish : ∀ t, Moves (Asks s.graph (w.node :: frames) ongoing)
      (s.finishTransformedMethod node m exposure w t) := by
    intro t
    unfold finishTransformedMethod
    split
    · exact Moves.pure _
    · split
      · exact asks_of_idle (s.idle_warn _ _)
      · refine (asks_of_idle (idle_freshIn _ _)).bind fun name => ?_
        exact (asks_place_frame hframe (by rintro _ ⟨⟩)).bind fun _ =>
          asks_registerMaker hm rfl hnode
  refine (Moves.lift_transform _).bind fun t => (asks_addHeaders _ _).bind fun _ => ?_
  dsimp only
  split
  · next kind hkind =>
    have hplain := NodeKind.isPlain_iff.mp (isPlain_standIn hkind)
    exact (asks_place_frame hframe hplain.2).bind fun _ => hfinish t
  · exact hfinish t

theorem asks_registerMethod (hroot : root ∈ frames) (hnode : node ∈ ongoing) :
    Moves (Asks s.graph frames ongoing) (s.registerMethod cls node id) := by
  intro b u b' h hb
  rcases registerMethod_ok h with ⟨rfl, -⟩ | ⟨m, b₁, rfl, hm, hmethod, hregister⟩
  · exact hb
  · have hb₁ := asks_of_idle (s.idle_method _ _ _ _) _ _ _ hmethod hb
    rcases hregister with ⟨-, hregister⟩ | ⟨-, hregister⟩
    · exact asks_registerPlainMethod hm hroot hnode _ _ _ hregister hb₁
    · exact asks_registerTransformedMethod hm hroot hnode _ _ _ hregister hb₁

/-! ### Other members -/

/-- A declaration is bound with its entry. -/
theorem asks_entered (id : DeclId) (hp : p ∈ frames ∨ p ∈ ongoing)
    (hkind : kind.IsNeutral s.graph (some id)) :
    Moves (Asks s.graph frames ongoing) (place p kind (some id) >>= fun _ => markExported id) :=
  (asks_place hp hkind).bind fun _ => asks_of_idle (idle_markExported id)

/-- An operator is no function that can be static, wherever it is declared. -/
theorem isNeutral_operator (g : DeclGraph) (decl : Option DeclId) (o : OperatorNode) :
    (NodeKind.operator o).IsNeutral g decl := by
  refine ⟨by rintro _ ⟨⟩, ?_⟩
  rw [NodeKind.staticRole]
  split
  · exact .inr rfl
  · exact .inl rfl

theorem asks_registerMemberOperator (hnode : node ∈ ongoing) :
    Moves (Asks s.graph frames ongoing) (s.registerMemberOperator cls node id) := by
  unfold registerMemberOperator
  split
  · split
    · exact asks_entered id (.inr hnode) (isNeutral_operator _ _ _)
    · exact Moves.pure _
  · exact Moves.pure _

/-- An operator outside of classes may come to a class that has its statements. -/
theorem asks_registerFreeOperator {c : Callable} {symbol : String}
    (hid : s.graph.isFreeOperator id) :
    Moves (Asks s.graph frames ongoing) (s.registerFreeOperator id c symbol) := by
  have hrole : ∀ o, (NodeKind.operator o).staticRole s.graph (some id) = .trails :=
    fun _ => if_pos hid
  unfold registerFreeOperator
  refine Moves.get.bind fun b => ?_
  split
  · exact asks_of_idle (s.idle_warn _ _)
  · split
    · exact Moves.pure _
    · exact (asks_place_trailing (by rintro _ ⟨⟩) (hrole _)).bind fun _ =>
        asks_of_idle (idle_markExported id)

theorem asks_registerCast (hnode : node ∈ ongoing) :
    Moves (Asks s.graph frames ongoing) (s.registerCast node id) := by
  unfold registerCast
  split
  · split
    · split
      · exact asks_of_idle (s.idle_warn _ _)
      · exact asks_entered id (.inr hnode) ⟨by rintro _ ⟨⟩, .inl rfl⟩
    · split
      · exact Moves.pure _
      · exact asks_entered id (.inr hnode) ⟨by rintro _ ⟨⟩, .inl rfl⟩
  · exact Moves.pure _

theorem asks_registerEnum (hp : p ∈ frames ∨ p ∈ ongoing) (enumerators : List Enumerator) :
    Moves (Asks s.graph frames ongoing) (s.registerEnum p id enumerators) := by
  unfold registerEnum
  extract_lets config names values register
  split
  · rw [pure_bind]
    exact asks_entered id hp ⟨by rintro _ ⟨⟩, .inl rfl⟩
  · refine (asks_of_idle (s.idle_pythonName id)).bind fun name => ?_
    rw [pure_bind]
    exact asks_entered id hp ⟨by rintro _ ⟨⟩, .inl rfl⟩

theorem asks_registerMemberVariable (hroot : root ∈ frames) (hnode : node ∈ ongoing)
    (v : VariableDecl) :
    Moves (Asks s.graph frames ongoing) (s.registerMemberVariable cls node id v) := by
  unfold registerMemberVariable
  refine (asks_of_idle (s.idle_pythonName id)).bind fun pythonName => ?_
  split
  · exact asks_entered id (.inr hnode) ⟨by rintro _ ⟨⟩, .inl rfl⟩
  · refine asks_wrapperOf_bind hroot fun w => ?_
    refine (asks_place_frame List.mem_cons_self (by rintro _ ⟨⟩)).bind fun _ => ?_
    exact asks_entered id (.inr hnode) ⟨by rintro _ ⟨⟩, .inl rfl⟩

theorem asks_registerMember {nested : NodeId → DeclId → ClassDecl → Binding Unit}
    (hroot : root ∈ frames) (hnode : node ∈ ongoing)
    (hnested : ∀ c, Moves (Asks s.graph frames ongoing) (nested node id c)) :
    Moves (Asks s.graph frames ongoing) (s.registerMember nested cls node id) := by
  unfold registerMember
  split
  · exact hnested _
  · exact asks_registerEnum (.inr hnode) _
  · exact asks_registerMemberVariable hroot hnode _
  · split
    · exact Moves.pure _
    · exact Moves.pure _
    · exact asks_registerCast hnode
    · split
      · exact asks_registerMethod hroot hnode
      · exact asks_registerMemberOperator hnode
    · exact asks_registerMethod hroot hnode
  · exact Moves.pure _

/-! ### Constructors -/

theorem asks_registerConstructor {position : Nat} {ctor : DeclId × Callable}
    (hnode : node ∈ ongoing) :
    Moves (Asks s.graph frames ongoing) (s.registerConstructor cls node position ctor) := by
  unfold registerConstructor
  dsimp only
  split
  · exact (asks_of_idle (s.idle_warn _ _)).bind fun _ => Moves.pure _
  · refine (asks_placeAt hnode ⟨by rintro _ ⟨⟩, .inl rfl⟩).bind fun _ => ?_
    refine (asks_of_idle (idle_markExported _)).bind fun _ => ?_
    split
    · next conversion hconversion =>
      have hneutral : conversion.IsNeutral s.graph (some ctor.1) := by
        unfold castingConversion? at hconversion
        split at hconversion
        · obtain ⟨-, heq⟩ := Option.ite_none_right_eq_some.mp hconversion
          cases heq
          exact ⟨by rintro _ ⟨⟩, .inl rfl⟩
        · cases hconversion
      exact (asks_place (.inr hnode) hneutral).bind fun _ => Moves.pure _
    · exact Moves.pure _

/-- Constructors come to the registration of the class and to its wrapper class. -/
theorem asks_registerConstructors (hnode : node ∈ ongoing) :
    Moves (Asks s.graph frames ongoing) (s.registerConstructors cls node) := by
  intro b u b' h hb
  unfold registerConstructors at h
  obtain ⟨b₁, b₂, hget, h⟩ := run_bind_eq_ok.mp h
  obtain ⟨rfl, rfl⟩ := run_get_eq_ok.mp hget
  obtain ⟨ctors, b₂, hctors, h⟩ := run_bind_eq_ok.mp h
  obtain ⟨-, rfl⟩ := run_lift_missing_eq_ok.mp hctors
  extract_lets fill withArgs at h
  -- a wrapper class of the class is known to be no registration
  obtain ⟨frames', hwrapper, hb', hback⟩ : ∃ frames',
      (∀ w, b.wrapper? cls = some w → w.node ∈ frames') ∧ Asking s.graph frames' ongoing b ∧
        ∀ b', Asking s.graph frames' ongoing b' → Asking s.graph frames ongoing b' := by
    cases hw : b.wrapper? cls with
    | none => exact ⟨frames, fun _ h => (nomatch h), hb, fun _ => id⟩
    | some w =>
      refine ⟨w.node :: frames, fun w' hw' => ?_, hb.cons_frame (hb.isFrame hw), fun _ h =>
        h.of_cons_frame⟩
      exact Option.some.inj hw' ▸ List.mem_cons_self
  have hfill : Moves (Asks s.graph frames' ongoing) (fill ()) := by
    unfold fill
    split
    · next w hw =>
      intro b₁ u b' h hb₁
      obtain ⟨kinds, b₂, hlift, h⟩ := run_bind_eq_ok.mp h
      obtain ⟨hkinds, rfl⟩ := run_lift_missing_eq_ok.mp hlift
      refine (?_ : Moves (Asks s.graph frames' ongoing) _) _ _ _ h hb₁
      refine Moves.forM _ fun q hq => ?_
      obtain ⟨kind, i⟩ := q
      have hkind :=
        isConstruction_of_wrapperConstructors hkinds kind (List.fst_mem_of_mem_zipIdx hq)
      refine (asks_placeAt_frame (hwrapper w hw) ?_).bind fun _ => Moves.pure _
      rintro r rfl
      cases hkind
    · exact Moves.pure _
  refine hback _ ?_
  split at h
  · exact hfill _ _ _ h hb'
  · refine (?_ : Moves (Asks s.graph frames' ongoing) _) _ _ _ h hb'
    refine (Moves.foldlM _ _ fun position ctor _ => ?_).bind fun _ => hfill
    exact asks_registerConstructor hnode

/-! ### Classes -/

/-- The statements come one behind the other, and nothing else changes. -/
theorem gains_states : ∀ {names : List String} {b b' : Binder} {u : PUnit}, b.tree.WellFormed →
    (forIn names PUnit.unit fun pythonName _ => do
      let _ ← place node (.staticMethod pythonName) none
      return ForInStep.yield PUnit.unit : Binding PUnit).run b = .ok (u, b') →
    GainsAt g node b b' ∧
      b'.tree.staticRoles g node = b.tree.staticRoles g node ++ names.map .states
  | [], b, b', _, _, h => by
    rw [List.forIn_nil] at h
    obtain ⟨-, rfl⟩ := run_pure_eq_ok.mp h
    exact ⟨.of_idle (refl_of Idle b), (List.append_nil _).symm⟩
  | name :: names, b, b', u, hw, h => by
    rw [List.forIn_cons] at h
    obtain ⟨r, b₁, hfirst, hrest⟩ := run_bind_eq_ok.mp h
    obtain ⟨n, b₂, hplace, hpure⟩ := run_bind_eq_ok.mp hfirst
    obtain ⟨rfl, rfl⟩ := run_pure_eq_ok.mp hpure
    obtain ⟨rfl, t, ht, rfl⟩ := place_ok hplace
    have hplaced := placedAs_of_adopt ht
    obtain ⟨hold, hnew⟩ := hplaced.staticRoles_self (g := g) hw
    rw [List.map_nil, List.append_nil] at hold
    rw [List.map_nil, ← hold] at hnew
    obtain ⟨hgains, hroles⟩ := gains_states (hplaced.wellFormed hw) hrest
    refine ⟨(GainsAt.of_placed hplaced hw (by rintro _ ⟨⟩)).trans hgains, ?_⟩
    rw [hroles, show CodeTree.staticRoles g t node = _ from hnew, List.append_assoc]
    rfl

/-- A class gets its constructors, its statements and the texts of the user. -/
theorem asking_finishClass {b b' : Binder} {u : PUnit}
    (h : (s.finishClass cls node).run b = .ok (u, b'))
    (hb : Asking s.graph frames (node :: ongoing) b) : Asking s.graph frames ongoing b' := by
  unfold finishClass at h
  obtain ⟨v, b₁, hconstructors, h⟩ := run_bind_eq_ok.mp h
  have hb₁ := asks_registerConstructors List.mem_cons_self _ _ _ hconstructors hb
  obtain ⟨names, b₂, htake, h⟩ := run_bind_eq_ok.mp h
  obtain ⟨rfl, rfl⟩ := Prod.mk.inj (run_modifyGet_eq_ok.mp htake)
  obtain ⟨w, b₃, hstates, htexts⟩ := run_bind_eq_ok.mp h
  obtain ⟨hgains, hroles⟩ := gains_states (g := s.graph) (by exact hb₁.wellFormed) hstates
  have hsettled : Asking s.graph frames ongoing b₃ := hb₁.settle hgains hroles
  exact asks_addCustomTexts _ _ _ _ _ _ htexts hsettled

/-- **A class is registered with its statements.** -/
theorem asks_registerClass (s : BindingSetup) :
    ∀ (depth : Nat) {frames ongoing : List NodeId} {p : NodeId} (cls : DeclId) (c : ClassDecl),
      root ∈ frames → p ∈ frames ∨ p ∈ ongoing →
      Moves (Asks s.graph frames ongoing) (s.registerClass depth p cls c)
  | 0, _, _, _, _, _, _, _ => Moves.pure _
  | depth + 1, frames, ongoing, p, cls, c, hroot, hp => by
    intro b u b' h hb
    obtain ⟨registration, b₁, t, b₂, v, hnode, hplaced, hfill, hupdate⟩ := registerClass_eq_ok h
    have hb₁ := asks_of_idle (s.idle_classNode cls c) _ _ _ hnode hb
    have hregistered : Asking s.graph frames (b₁.tree.size :: ongoing) { b₁ with
        tree := t
        classNodes := (cls, b₁.tree.size) :: b₁.classNodes
        exported := b₁.exported ++ [cls] } :=
      (hb₁.register hplaced hp).idle ⟨rfl, rfl, rfl⟩
    obtain ⟨members, found, b₃, b₄, x, y, -, -, hmembers, hfound, hcomplete⟩ := fillClass_ok hfill
    have hself : b₁.tree.size ∈ b₁.tree.size :: ongoing := List.mem_cons_self
    -- classes in the class are registered, and get their statements, while it is under way
    have hb₃ := Moves.forM members (fun id _ => asks_registerMember hroot hself fun c =>
      s.asks_registerClass depth id c hroot (.inr hself)) _ _ _ hmembers hregistered
    have hb₄ := Moves.forM found (fun id _ => asks_registerMethod hroot hself) _ _ _ hfound hb₃
    have hb₂ : Asking s.graph frames ongoing b₂ := by
      rw [completeClass_eq] at hcomplete
      split at hcomplete
      · exact asking_finishClass hcomplete hb₄
      · obtain ⟨w, b₅, hwrapper, hcomplete⟩ := run_bind_eq_ok.mp hcomplete
        obtain ⟨z, b₆, htexts, hcomplete⟩ := run_bind_eq_ok.mp hcomplete
        have hb₅ := (asking_wrapperOf hroot hwrapper hb₄).1
        exact asking_finishClass hcomplete (asks_addCustomTexts _ _ _ _ _ _ htexts hb₅)
    obtain ⟨t', rfl, haltered⟩ := updateClass_ok hupdate
    exact hb₂.still (haltered.still fun _ => rfl)

/-! ### Declarations outside of classes -/

theorem asks_registerPlainFunction (hbody : body ∈ frames) (c : Callable) :
    Moves (Asks s.graph frames ongoing) (s.registerPlainFunction body id c) := by
  unfold registerPlainFunction
  dsimp only
  split
  · exact asks_of_idle (s.idle_warn _ _)
  · refine (asks_of_idle (s.idle_pythonName id)).bind fun _ => ?_
    exact (asks_place_frame hbody (by rintro _ ⟨⟩)).bind fun _ =>
      asks_of_idle (idle_markExported id)

theorem asks_registerTransformedFunction (hroot : root ∈ frames) (hbody : body ∈ frames)
    (c : Callable) :
    Moves (Asks s.graph frames ongoing) (s.registerTransformedFunction body id c) := by
  unfold registerTransformedFunction
  dsimp only
  refine (asks_of_idle (s.idle_pythonName id)).bind fun pythonName => ?_
  refine (Moves.lift_transform _).bind fun t => ?_
  split
  · exact asks_of_idle (s.idle_warn _ _)
  · refine (asks_of_idle (idle_freshIn _ _)).bind fun name => ?_
    refine (asks_placeBeforeBody hroot (by rintro _ ⟨⟩)).bind fun adapter => ?_
    refine (asks_addHeaders _ _).bind fun _ => ?_
    exact (asks_place_frame hbody (by rintro _ ⟨⟩)).bind fun _ =>
      asks_of_idle (idle_markExported id)

theorem asks_register (hroot : root ∈ frames) (hbody : body ∈ frames) :
    Moves (Asks s.graph frames ongoing) (s.register body id) := by
  unfold register
  refine (Moves.lift_missing _).bind fun exportable => ?_
  split
  · split
    · exact s.asks_registerClass _ id _ hroot (.inl hbody)
    · exact asks_registerEnum (.inl hbody) _
    · exact (asks_of_idle (s.idle_pythonName id)).bind fun _ =>
        asks_entered id (.inl hbody) ⟨by rintro _ ⟨⟩, .inl rfl⟩
    · next c hc =>
      split
      · split
        · exact asks_registerPlainFunction hbody c
        · exact asks_registerTransformedFunction hroot hbody c
      · next symbol hsymbol =>
        refine asks_registerFreeOperator ?_
        have hcallable : s.graph.callable? id = some c := by rw [DeclGraph.callable?, hc]
        rw [DeclGraph.isFreeOperator, hcallable, Option.any_some, hsymbol]
      · exact Moves.pure _
    · exact Moves.pure _
  · exact Moves.pure _

/-! ### The module -/

/-- The registration of a container has no functions. -/
theorem asks_registerContainer {position : Nat} {fullName : String} {kind : ContainerKind}
    (hbody : body ∈ frames) :
    Moves (Asks s.graph frames ongoing) (s.registerContainer body position fullName id kind) := by
  unfold registerContainer
  refine (asks_of_idle (s.idle_pythonName id)).bind fun pythonName => ?_
  refine (asks_of_idle (idle_identifier _)).bind fun exposer => ?_
  intro b u b' h hb
  obtain ⟨n, b₁, hplace, h⟩ := run_bind_eq_ok.mp h
  obtain ⟨rfl, t, ht, rfl⟩ := placeAt_ok hplace
  have hplaced := placedAs_of_adoptAt ht
  have hroles : t.staticRoles s.graph b.tree.size = [] := staticRoles_of_children_eq_nil <|
    (hplaced.children _ hplaced.old.symm).trans (children_size b.tree)
  have hb₁ := (hb.register hplaced (.inl hbody)).settle_of_empty hroles
  obtain ⟨n, b₂, hsuite, h⟩ := run_bind_eq_ok.mp h
  obtain ⟨rfl, t', ht', rfl⟩ := place_ok hsuite
  have hplaced' := placedAs_of_adopt ht'
  obtain ⟨hold, hnew⟩ := hplaced'.staticRoles_self (g := s.graph) hb₁.wellFormed
  have hstated : Stated (t'.staticRoles s.graph b.tree.size) := by
    rw [List.map_nil, List.append_nil] at hold
    rw [hnew, ← hold, show CodeTree.staticRoles s.graph _ _ = [] from hroles]
    exact stated_of_plain fun role hrole => List.mem_singleton.mp hrole
  have hb₂ := hb₁.gains (.of_placed hplaced' hb₁.wellFormed (by rintro _ ⟨⟩))
    (fun hmem => absurd rfl (hb.ne_size hmem)) fun _ _ _ => hstated
  refine (?_ : Moves (Asks s.graph frames ongoing) _) _ _ _ h hb₂
  exact (asks_addHeaders _ _).bind fun _ => asks_of_idle (idle_markExported id)

theorem asks_registerContainers (hbody : body ∈ frames) :
    Moves (Asks s.graph frames ongoing) (s.registerContainers body) := by
  unfold registerContainers
  refine Moves.get.bind fun b => Moves.forM _ fun q _ => ?_
  obtain ⟨⟨fullName, id, kind⟩, position⟩ := q
  exact asks_registerContainer hbody

theorem asks_includeHeaders (hroot : root ∈ frames) :
    Moves (Asks s.graph frames ongoing) s.includeHeaders := by
  unfold includeHeaders
  refine Moves.get.bind fun b => (Moves.lift_tree _).bind fun headers => ?_
  refine Moves.forM headers fun header _ b u b' h hb => ?_
  obtain ⟨t, ht, rfl⟩ := editTree_ok h
  split at ht
  · next hadd =>
    cases ht
    rcases addInclude_ok hadd with ⟨-, rfl⟩ | ⟨-, back, hplaced⟩
    · exact hb
    · exact hb.placed hplaced (by rintro _ ⟨⟩) (.inl hroot)
  · cases ht

/-- In a tree where nothing has been bound no class is under way. -/
theorem asking_ofModule {t : CodeTree}
    (h : CodeTree.ofModule s.options.name s.options.license s.options.bindingNamespace = .ok t)
    (hbody : t.body? = some body) : Asking s.graph [root, body] [] { tree := t } := by
  have harranged := s.arranged_ofModule h hbody
  refine ⟨harranged.wellFormed, ?_, fun _ he => (nomatch he), List.nodup_nil, List.nodup_nil,
    fun _ he => (nomatch he), fun _ hq => (nomatch hq), fun _ hq => (nomatch hq),
    fun q r hr _ => ?_⟩
  · intro q hq
    rcases List.mem_cons.mp hq with rfl | hq
    · exact ⟨_, harranged.module, by rintro _ ⟨⟩⟩
    · exact List.mem_singleton.mp hq ▸ ⟨_, harranged.body, by rintro _ ⟨⟩⟩
  · rcases kind?_ofModule h hr with heq | hpreamble | heq
    · cases heq
    · cases hpreamble
    · cases heq

/-! ### Statements in the tree -/

/-- The statements of a registration.  The names about which there are statements are distinct, they
are those of the static functions that are registered for the class, and the statements come behind
everything that is bound with the class but the texts of the user; operators from outside of
classes may come later. -/
structure StatesStatics (s : BindingSetup) (t : CodeTree) (q : NodeId) : Prop where
  nodup : (t.staticNames q).Nodup
  mem_iff : ∀ pythonName, pythonName ∈ t.staticNames q ↔
    ∃ c ∈ t.children q, ∃ m id f, t.kind? c = some (.maker m) ∧ t.decl? c = some id ∧
      s.graph.callable? id = some f ∧ f.isStatic ∧ m.pythonName = pythonName
  last : ∃ front back, t.children q = front ++ back ∧
    (∀ c ∈ front, ∀ pythonName, t.kind? c ≠ some (.staticMethod pythonName)) ∧
    ∀ c ∈ back, (∃ pythonName, t.kind? c = some (.staticMethod pythonName)) ∨
      (∃ text, t.kind? c = some (.customText text)) ∨
      ∃ o id f symbol, t.kind? c = some (.operator o) ∧ t.decl? c = some id ∧
        s.graph.callable? id = some f ∧ f.kind = .freeOperator symbol

theorem statesStatics_of_stated {t : CodeTree} {q : NodeId}
    (h : Stated (t.staticRoles s.graph q)) : s.StatesStatics t q := by
  obtain ⟨front, back, hsplit, hfront, hback⟩ := h.last
  obtain ⟨nodes, nodes', hchildren, rfl, rfl⟩ := List.map_eq_append_iff.mp hsplit
  refine ⟨statedNames_staticRoles s.graph t q ▸ h.nodup, fun pythonName => ?_, nodes, nodes',
    hchildren, fun c hc pythonName hk => ?_, fun c hc => ?_⟩
  · rw [← statedNames_staticRoles s.graph, mem_statedNames, h.mem_iff, staticRoles, List.mem_map]
    exact exists_congr fun c => and_congr_right fun _ => staticRole_eq_needs_iff
  · exact hfront pythonName (List.mem_map.mpr ⟨c, hc, staticRole_eq_states_iff.mpr hk⟩)
  · rcases hback _ (List.mem_map_of_mem hc) with htrails | ⟨pythonName, hstates⟩
    · exact .inr (staticRole_eq_trails_iff.mp htrails)
    · exact .inl ⟨pythonName, staticRole_eq_states_iff.mp hstates⟩

/-- **In a module that is bound every class states which of its functions are static.** -/
theorem bind_statesStatics {ids : List DeclId} {b : Binder} (h : s.bind ids = .ok b) {q : NodeId}
    {r : ClassNode} (hq : b.tree.kind? q = some (.cls r)) : s.StatesStatics b.tree q := by
  obtain ⟨t, body, u, hmodule, hbody, hrun⟩ := bind_ok h
  obtain ⟨b₁, b₂, v, w, hregister, hcontainers, hinclude⟩ := bindAll_ok hrun
  have hroot : root ∈ [root, body] := List.mem_cons_self
  have hframe : body ∈ [root, body] := List.mem_cons_of_mem root (List.mem_singleton_self body)
  have hb₁ := Moves.forM ids (fun id _ => asks_register hroot hframe) _ _ _ hregister
    (asking_ofModule hmodule hbody)
  have hb₂ := asks_registerContainers hframe _ _ _ hcontainers hb₁
  have hb₃ := asks_includeHeaders hroot _ _ _ hinclude hb₂
  exact statesStatics_of_stated (hb₃.stated q r hq List.not_mem_nil)

/-- A class with a static function, a constructor, and a text of the user. -/
def factory : DeclGraph :=
  ⟨#[{ name := "::", kind := .ns [1] },
    { name := "Shape", kind := .cls { members := [2, 3] }, parent := some DeclGraph.root,
      config := { code := ["def( \"scale\", &scale )"] } },
    { name := "make", parent := some 1, kind := .callable {
        kind := .memberFunction, returnType := some (.fundamental .int), isStatic := true } },
    { name := "Shape", parent := some 1, kind := .callable {
        kind := .constructor false false,
        args := [{ name := "n", type := .fundamental .int }] } }]⟩

/-- It has one statement, in front of the text. -/
theorem bind_statesStatics_factory : ∃ (s : BindingSetup) (b : Binder) (q : NodeId)
    (r : ClassNode), s.bind [1] = .ok b ∧ b.tree.kind? q = some (.cls r) ∧
      b.tree.staticNames q = ["make"] ∧ (b.tree.children q).length = 4 ∧
      s.StatesStatics b.tree q := by
  let s : BindingSetup := { graph := factory, options := {} }
  let r : ClassNode := {
    fullName := "::Shape", pythonName := "Shape", exposer := "Shape", noInit := true }
  obtain ⟨b, hb, htree⟩ := Except.exists_eq_ok_of_any (x := s.bind [1])
    (p := fun b => b.tree.kind? 4 = some (.cls r) ∧ b.tree.staticNames 4 = ["make"] ∧
      (b.tree.children 4).length = 4) (by decide +kernel)
  obtain ⟨hkind, hnames, hchildren⟩ := of_decide_eq_true htree
  exact ⟨s, b, 4, r, hb, hkind, hnames, hchildren, bind_statesStatics hb hkind⟩

end BindingSetup

end Bindery
