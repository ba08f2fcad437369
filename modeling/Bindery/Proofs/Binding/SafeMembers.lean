import Bindery.Proofs.Binding.Safety
import Bindery.Proofs.Decl.Overriding

/-!
# Safe bindings of members

Everything that is bound for a class or outside of classes, classes apart, finds the room that it
needs.

## Main results

* `safe_registerMethod` — a member function; this is where transformers may fail.
* `safe_registerConstructors` — the constructors of a class, each at its position.
* `safe_registerEnum`, `safe_registerMemberVariable`, `safe_registerFreeOperator`,
  `safe_registerCast` — the other members.
* `safe_registerTransformedFunction` — a function outside of classes; transformers may fail here as
  well.
-/

namespace Bindery.BindingSetup

open Binding

variable {s : BindingSetup} {b : Binder} {id cls : DeclId} {node parent : NodeId}

/-! ### Enumerations and variables -/

theorem safe_placeExported {kind : NodeKind} (hb : b.Ready) (hp : b.tree.hasChildList parent) :
    Safe s.graph (do
      let _ ← place parent kind (some id)
      markExported id) b fun _ _ => True :=
  (safe_place hb hp).bind fun _ _ h _ => safe_markExported h.ready id

theorem safe_registerEnum (hb : b.Ready) (hp : b.tree.hasChildList parent)
    (hid : id < s.graph.size) (enumerators : List Enumerator) :
    Safe s.graph (s.registerEnum parent id enumerators) b fun _ _ => True := by
  unfold registerEnum
  extract_lets config names values register
  split
  · exact (Safe.pure (Q := fun _ _ => True) hb trivial).bind fun _ _ h _ =>
      safe_placeExported h.ready (h.room hp)
  · refine (safe_pythonName hb hid).bind fun name b₁ h₁ _ => ?_
    exact (Safe.pure (Q := fun _ _ => True) h₁.ready trivial).bind fun _ _ h₂ _ =>
      safe_placeExported h₂.ready (h₂.room (h₁.room hp))

theorem safe_registerMemberVariable (hb : b.Ready) (hnode : b.tree.hasChildList node)
    (hid : id < s.graph.size) (cls : DeclId) (v : VariableDecl) :
    Safe s.graph (s.registerMemberVariable cls node id v) b fun _ _ => True := by
  unfold registerMemberVariable
  refine (safe_pythonName hb hid).bind fun name b₁ h₁ _ => ?_
  split
  · exact safe_placeExported h₁.ready (h₁.room hnode)
  · refine (safe_wrapperOf h₁.ready cls).bind fun w b₂ h₂ hw => ?_
    refine (safe_place h₂.ready hw).bind fun _ b₃ h₃ _ => ?_
    exact safe_placeExported h₃.ready (h₃.room (h₂.room (h₁.room hnode)))

/-! ### Operators -/

theorem safe_registerMemberOperator (hb : b.Ready) (hnode : b.tree.hasChildList node)
    (cls id : DeclId) :
    Safe s.graph (s.registerMemberOperator cls node id) b fun _ _ => True := by
  unfold registerMemberOperator
  split
  · split
    · exact safe_placeExported hb hnode
    · exact Safe.pure hb trivial
  · exact Safe.pure hb trivial

/-- The class that a free operator is bound for has a registration. -/
theorem hasChildList_of_operatorOwner? {c : Callable} (hb : b.Ready)
    (h : operatorOwner? b c = some (cls, node)) : b.tree.hasChildList node := by
  unfold operatorOwner? at h
  obtain ⟨a, -, ha⟩ := List.exists_of_findSome?_eq_some h
  split at ha
  · next owner _ =>
    obtain ⟨n, hn, heq⟩ := Option.map_eq_some_iff.mp ha
    cases heq
    exact hb.classNode cls node hn
  · cases ha

theorem safe_registerFreeOperator (hb : b.Ready) (id : DeclId) (c : Callable) (symbol : String) :
    Safe s.graph (s.registerFreeOperator id c symbol) b fun _ _ => True := by
  unfold registerFreeOperator
  refine Safe.get_bind ?_
  split
  · exact safe_warn hb id _
  · next cls node howner =>
    split
    · exact Safe.pure hb trivial
    · exact safe_placeExported hb (hasChildList_of_operatorOwner? hb howner)

theorem safe_registerCast (hb : b.Ready) (hnode : b.tree.hasChildList node) (id : DeclId) :
    Safe s.graph (s.registerCast node id) b fun _ _ => True := by
  unfold registerCast
  split
  · split
    · split
      · exact safe_warn hb id _
      · exact safe_placeExported hb hnode
    · split
      · exact Safe.pure hb trivial
      · exact safe_placeExported hb hnode
  · exact Safe.pure hb trivial

/-! ### Methods -/

theorem safe_methodAlias (hb : b.Ready) (hid : id < s.graph.size) (c : Callable) :
    Safe s.graph (s.methodAlias id c) b fun _ _ => True := by
  unfold methodAlias
  split
  · exact Safe.pure hb trivial
  · exact safe_pythonName hb hid

theorem safe_method (hb : b.Ready) (hid : id < s.graph.size) (cls : DeclId) (d : Declaration)
    (c : Callable) : Safe s.graph (s.method cls id d c) b fun m _ =>
      m.id = id ∧ m.decl = d ∧ m.callable = c ∧ m.fullName = s.graph.fullName id := by
  unfold method
  exact (safe_methodAlias hb hid c).bind fun _ _ h _ => Safe.pure h.ready ⟨rfl, rfl, rfl, rfl⟩

theorem safe_registerMaker (hb : b.Ready) (hnode : b.tree.hasChildList node) (m : Method)
    (maker : MakerNode) : Safe s.graph (registerMaker node m maker) b fun _ _ => True := by
  unfold registerMaker
  refine (safe_place hb hnode).bind fun _ b₁ h₁ _ => ?_
  split
  · exact (safe_requestStatic h₁.ready _ _).bind fun _ _ h₂ _ => safe_markExported h₂.ready _
  · exact safe_markExported h₁.ready _

theorem safe_finishPlainMethod (hb : b.Ready) (hnode : b.tree.hasChildList node) (m : Method)
    (exposure : Exposure) (wrapper : String) :
    Safe s.graph (s.finishPlainMethod node m exposure wrapper) b fun _ _ => True := by
  unfold finishPlainMethod
  split
  · exact Safe.pure hb trivial
  · split
    · exact safe_warn hb _ _
    · exact safe_registerMaker hb hnode m _

theorem safe_registerPlainMethod (hb : b.Ready) (hnode : b.tree.hasChildList node) (cls : DeclId)
    (m : Method) (exposure : Exposure) :
    Safe s.graph (s.registerPlainMethod cls node m exposure) b fun _ _ => True := by
  cases exposure with
  | direct =>
    rw [registerPlainMethod_direct]
    exact safe_finishPlainMethod hb hnode m _ _
  | hidden =>
    rw [registerPlainMethod_hidden]
    exact safe_finishPlainMethod hb hnode m _ _
  | shim kind =>
    rw [registerPlainMethod_shim]
    refine (safe_wrapperOf hb cls).bind fun w b₁ h₁ hw => ?_
    refine (safe_place h₁.ready hw).bind fun _ b₂ h₂ _ => ?_
    exact safe_finishPlainMethod h₂.ready (h₂.room (h₁.room hnode)) m _ _

theorem safe_finishTransformedMethod (hb : b.Ready) (hnode : b.tree.hasChildList node)
    {w : WrapperClass} (hw : b.tree.hasChildList w.node) (m : Method) (exposure : Exposure)
    (t : Transformation) :
    Safe s.graph (s.finishTransformedMethod node m exposure w t) b fun _ _ => True := by
  unfold finishTransformedMethod
  split
  · exact Safe.pure hb trivial
  · split
    · exact safe_warn hb _ _
    · refine (safe_freshIn hb _ _).bind fun name b₁ h₁ _ => ?_
      refine (safe_place h₁.ready (h₁.room hw)).bind fun _ b₂ h₂ _ => ?_
      exact safe_registerMaker h₂.ready (h₂.room (h₁.room hnode)) m _

/-- A transformed method is bound, unless its transformers fail. -/
theorem safe_registerTransformedMethod (hb : b.Ready) (hnode : b.tree.hasChildList node)
    (cls : DeclId) {m : Method} (exposure : Exposure)
    (hfail : ∀ e, Transformation.ofSpecs m.fullName m.callable m.decl.config.transformers =
      .error e → s.graph.TransformersFail e) :
    Safe s.graph (s.registerTransformedMethod cls node m exposure) b fun _ _ => True := by
  rw [registerTransformedMethod_eq]
  refine (safe_wrapperOf hb cls).bind fun w b₁ h₁ hw => ?_
  refine (Safe.lift_transform h₁.ready hfail).bind fun t b₂ h₂ _ => ?_
  have hw := h₂.room hw
  refine (safe_addHeaders h₂.ready (CodeTree.lt_size_of_hasChildList hw)).bind fun _ b₃ h₃ _ => ?_
  have hw := h₃.room hw
  have hnode := h₃.room (h₂.room (h₁.room hnode))
  split
  · refine (safe_place h₃.ready hw).bind fun _ b₄ h₄ _ => ?_
    exact safe_finishTransformedMethod h₄.ready (h₄.room hnode) (h₄.room hw) m exposure t
  · exact safe_finishTransformedMethod h₃.ready hnode hw m exposure t

/-- **A method is bound, unless its transformers fail.** -/
theorem safe_registerMethod (hb : b.Ready) (hnode : b.tree.hasChildList node)
    (hmethod : s.graph.isMethod id) (cls : DeclId) :
    Safe s.graph (s.registerMethod cls node id) b fun _ _ => True := by
  obtain ⟨c, hc, hc'⟩ := DeclGraph.isMethod_iff.mp hmethod
  have hid := DeclGraph.lt_size_of_callable? hc
  unfold registerMethod
  refine (Safe.lift_missing hb (DeclGraph.exists_decl hid)).bind fun d b₁ h₁ hd => ?_
  have hget := DeclGraph.decl_eq_ok.mp hd
  split
  · next c' hkind =>
    obtain rfl : c' = c := by
      have hcallable := DeclGraph.callable?_eq_some_iff.mp hc
      unfold DeclGraph.kind? at hcallable
      rw [hget, Option.map_some, hkind] at hcallable
      cases hcallable
      rfl
    dsimp only
    split
    · exact Safe.pure h₁.ready trivial
    refine (safe_method h₁.ready hid cls d c').bind fun m b₂ h₂ hm => ?_
    obtain ⟨rfl, rfl, rfl, hname⟩ := hm
    have hnode := h₂.room (h₁.room hnode)
    split
    · exact safe_registerPlainMethod h₂.ready hnode cls m _
    · next htransformed =>
      have hm : s.Describes m := ⟨hget, hkind, hname⟩
      refine safe_registerTransformedMethod h₂.ready hnode cls _ fun e he => ?_
      refine ⟨m.id, m.callable, hc, hc', ?_, ?_⟩
      · rw [hm.config]
        exact fun h => htransformed (by rw [h]; rfl)
      · rw [hm.config, ← hname]
        exact he
  · exact Safe.pure h₁.ready trivial

/-! ### Constructors -/

theorem exists_callableConstructors (cls : DeclId) :
    ∃ ctors, s.callableConstructors cls = .ok ctors := by
  refine Except.exists_filterM fun p hp => ?_
  obtain ⟨id, c⟩ := p
  have hid := DeclGraph.lt_size_of_callable? (DeclGraph.mem_callables.mp hp).2
  dsimp only
  split
  · exact ⟨false, rfl⟩
  refine Except.exists_bind (DeclGraph.exists_decl hid) fun d _ => ?_
  split
  · exact ⟨false, rfl⟩
  · exact exists_isExportable hid

/-- A constructor takes a position that its class has, and the next one may take the next. -/
theorem safe_registerConstructor {position : Nat} (hb : b.Ready) (hnode : b.tree.hasChildList node)
    (hle : position ≤ (b.tree.children node).length) (cls : DeclId) (ctor : DeclId × Callable) :
    Safe s.graph (s.registerConstructor cls node position ctor) b fun next b' =>
      next ≤ (b'.tree.children node).length := by
  unfold registerConstructor
  dsimp only
  split
  · refine (safe_warn hb _ _).bind fun _ b₁ h₁ _ => ?_
    exact Safe.pure h₁.ready (hle.trans (h₁.roomier.length node))
  refine (safe_placeAt hb hnode hle).bind fun _ b₁ h₁ hgains => ?_
  refine (safe_markExported h₁.ready _).bind fun _ b₂ h₂ _ => ?_
  have hnext : position + 1 ≤ (b₂.tree.children node).length :=
    (Nat.succ_le_of_lt (hle.trans_lt hgains.child)).trans (h₂.roomier.length node)
  split
  · refine (safe_place h₂.ready (h₂.room (h₁.room hnode))).bind fun _ b₃ h₃ _ => ?_
    exact Safe.pure h₃.ready (hnext.trans (h₃.roomier.length node))
  · exact Safe.pure h₂.ready hnext

theorem safe_registerConstructors (hg : s.graph.Closed) (hb : b.Ready)
    (hnode : b.tree.hasChildList node) (hcls : cls < s.graph.size) :
    Safe s.graph (s.registerConstructors cls node) b fun _ _ => True := by
  unfold registerConstructors
  refine Safe.get_bind ?_
  refine (Safe.lift_missing hb (exists_callableConstructors cls)).bind fun ctors b₁ h₁ _ => ?_
  extract_lets fill withArgs
  have hfill : ∀ {b'}, b.Onward b' → ∀ u, Safe s.graph (fill u) b' fun _ _ => True := by
    intro b' h u
    unfold fill
    split
    · next w hw =>
      have hkinds : ∃ kinds, s.wrapperConstructors cls w.name ctors = .ok kinds := by
        unfold wrapperConstructors
        exact Except.exists_bind (hg.exists_isNoncopyable hcls) fun _ _ => ⟨_, rfl⟩
      refine (Safe.lift_missing h.ready hkinds).bind fun kinds b₂ h₂ _ => ?_
      -- the constructors come in front, one behind the other
      refine Safe.forM_zipIdx (P := fun i b' =>
        b'.tree.hasChildList w.node ∧ i ≤ (b'.tree.children w.node).length) h₂.ready
        ⟨h₂.room (h.room (hb.wrapper cls w hw)), Nat.zero_le _⟩ fun kind i b' _ h' hi => ?_
      refine (safe_placeAt h'.ready hi.1 hi.2).bind fun _ b₃ h₃ hgains => ?_
      exact Safe.pure h₃.ready ⟨h₃.room hi.1, Nat.succ_le_of_lt (hi.2.trans_lt hgains.child)⟩
    · exact Safe.pure h.ready trivial
  split
  · exact hfill h₁ ()
  · have hwithArgs : Safe s.graph (withArgs.foldlM (s.registerConstructor cls node) 0) b₁
        fun position b' => position ≤ (b'.tree.children node).length :=
      Safe.foldlM h₁.ready (Nat.zero_le _) fun position ctor _ b' h' hle =>
        safe_registerConstructor h'.ready (h'.room (h₁.room hnode)) hle cls ctor
    exact hwithArgs.bind fun _ b₂ h₂ _ => hfill (h₁.trans h₂) ()

/-! ### Declarations outside of classes -/

theorem safe_addCustomTexts (hb : b.Ready) (hp : b.tree.hasChildList parent)
    (worksOnInstance : Bool) (texts : List String) :
    Safe s.graph (addCustomTexts parent worksOnInstance texts) b fun _ _ => True :=
  Safe.forM hb fun _ _ _ h =>
    (safe_place h.ready (h.room hp)).bind fun _ _ h₁ _ => Safe.pure h₁.ready trivial

theorem safe_registerGlobalVariable (hb : b.Ready) (hp : b.tree.hasChildList parent)
    (hid : id < s.graph.size) :
    Safe s.graph (s.registerGlobalVariable parent id) b fun _ _ => True := by
  unfold registerGlobalVariable
  refine (safe_pythonName hb hid).bind fun name b₁ h₁ _ => ?_
  exact safe_placeExported h₁.ready (h₁.room hp)

theorem safe_registerPlainFunction (hb : b.Ready) (hp : b.tree.hasChildList parent)
    (hid : id < s.graph.size) (c : Callable) :
    Safe s.graph (s.registerPlainFunction parent id c) b fun _ _ => True := by
  unfold registerPlainFunction
  dsimp only
  split
  · exact safe_warn hb id _
  · refine (safe_pythonName hb hid).bind fun name b₁ h₁ _ => ?_
    exact safe_placeExported h₁.ready (h₁.room hp)

/-- A transformed function is bound, unless its transformers fail. -/
theorem safe_registerTransformedFunction (hb : b.Ready) (hp : b.tree.hasChildList parent)
    {c : Callable} (hc : s.graph.callable? id = some c) (hmethod : c.isMethod)
    (htransformed : (s.graph.config id).transformers ≠ []) :
    Safe s.graph (s.registerTransformedFunction parent id c) b fun _ _ => True := by
  unfold registerTransformedFunction
  dsimp only
  refine (safe_pythonName hb (DeclGraph.lt_size_of_callable? hc)).bind fun name b₁ h₁ _ => ?_
  refine (Safe.lift_transform h₁.ready fun e he => ⟨id, c, hc, hmethod, htransformed, he⟩).bind
    fun t b₂ h₂ _ => ?_
  split
  · exact safe_warn h₂.ready id _
  · refine (safe_freshIn h₂.ready _ _).bind fun wanted b₃ h₃ _ => ?_
    refine (safe_placeBeforeBody h₃.ready).bind fun adapter b₄ h₄ hgains => ?_
    refine (safe_addHeaders h₄.ready hgains.present).bind fun _ b₅ h₅ _ => ?_
    exact safe_placeExported h₅.ready (h₅.room (h₄.room (h₃.room (h₂.room (h₁.room hp)))))

end Bindery.BindingSetup
