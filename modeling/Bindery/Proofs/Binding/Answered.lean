import Bindery.Proofs.Binding.Entries
import Bindery.Proofs.Decl.Reached

/-!
# Nothing is left out in silence

Whatever a binding takes up, it binds, or else the user is told.  And whatever calls for a wrapper
class gets it.

## Main definitions

* `Warned`, `BindingSetup.Answered` — the user is told; a declaration is bound, or the user is told.
* `DeclGraph.IsOffered` — the members of a class that are taken up.
* `BindingSetup.Settled` — a class is registered with all that it offers and needs.

## Main results

* `answers_registerMethod`, `answers_registerMember`, `answers_register` — **what is taken up is
  bound, or the user is told.**
* `exists_wrapper?_of_registerMethod` — what is bound through a wrapper class makes it.
* `settled_of_registerClass` — **a class is settled with all classes that are nested in it.**
* `bind_settled`, `bind_answers` — so are all classes of a module, and all else in it is answered.
-/

namespace Bindery

open Binding Binder

/-- There is a warning that names the location. -/
def Warned (ds : List Diagnostic) (location : String) : Prop :=
  ∃ d ∈ ds, d.severity = .warning ∧ d.location = some location

theorem Warned.mono {ds ds' : List Diagnostic} {location : String} (h : Warned ds location)
    (hsubset : ds ⊆ ds') : Warned ds' location := by
  obtain ⟨d, hd, hwarning⟩ := h
  exact ⟨d, hsubset hd, hwarning⟩

/-- A member of a class that is bound, or else the user is told: an enumeration, a variable, or a
method that is not private. -/
def DeclGraph.IsOffered (g : DeclGraph) (m : DeclId) : Prop :=
  (∃ values, g.kind? m = some (.enum values)) ∨ (∃ v, g.kind? m = some (.variable v)) ∨
    g.isMethod m ∧ g.access? m ≠ some .priv

/-- A declaration outside of classes that is bound, or else the user is told: a class, an
enumeration, a variable, or a free function or operator. -/
def DeclGraph.IsOfferedOutside (g : DeclGraph) (id : DeclId) : Prop :=
  g.isClass id ∨ (∃ values, g.kind? id = some (.enum values)) ∨
    (∃ v, g.kind? id = some (.variable v)) ∨
    ∃ c, g.kind? id = some (.callable c) ∧ (c.kind matches .freeFunction | .freeOperator _)

namespace BindingSetup

variable {s : BindingSetup} {ids : List DeclId} {body p node : NodeId} {b b' : Binder}
  {cls id : DeclId} {α β : Type} {u : PUnit}

/-- The declaration has been bound, or the user is told of it. -/
def Answered (s : BindingSetup) (b : Binder) (id : DeclId) : Prop :=
  id ∈ b.exported ∨ Warned b.diagnostics (s.graph.fullName id)

theorem Answered.kept (h : s.Answered b id) (hkept : Kept b b') : s.Answered b' id :=
  h.imp (fun h => hkept.exported h) fun h => h.mono hkept.diagnostics

/-- A successful run binds the declaration, or tells the user of it. -/
def Answers (s : BindingSetup) (id : DeclId) (m : Binding α) : Prop :=
  ∀ b a b', m.run b = .ok (a, b') → s.Answered b' id

theorem Answers.bind {m : Binding α} {f : α → Binding β} (h : ∀ a, s.Answers id (f a)) :
    s.Answers id (m >>= f) := by
  intro b c b' hrun
  obtain ⟨a, b₁, -, hf⟩ := run_bind_eq_ok.mp hrun
  exact h a b₁ c b' hf

theorem answers_markExported (s : BindingSetup) (id : DeclId) : s.Answers id (markExported id) := by
  intro b u b' h
  obtain rfl := run_modify_eq_ok.mp h
  exact .inl (List.mem_append_right _ (List.mem_singleton_self id))

theorem answers_warn (s : BindingSetup) (id : DeclId) (message : String) :
    s.Answers id (s.warn id message) := by
  intro b u b' h
  obtain rfl := run_modify_eq_ok.mp h
  exact .inr ⟨_, List.mem_append_right _ (List.mem_singleton_self _), rfl, rfl⟩

/-! ### Methods -/

/-- Private functions stay out of reach, unless they are pure virtual. -/
theorem Exposure.of_eq_hidden_iff {access : Access} {c : Callable} :
    Exposure.of access c = .hidden ↔ access = .priv ∧ c.virtuality ≠ .pure := by
  unfold Exposure.of
  split <;> simp_all

/-- Private functions that are pure virtual are overridden without being registered. -/
theorem Exposure.of_eq_privPureVirtual_iff {access : Access} {c : Callable} :
    Exposure.of access c = .shim .privPureVirtual ↔ access = .priv ∧ c.virtuality = .pure := by
  unfold Exposure.of
  split <;> simp_all

theorem answers_registerMaker {m : Method} {maker : MakerNode} :
    s.Answers m.id (registerMaker node m maker) := by
  unfold registerMaker
  refine Answers.bind fun _ => ?_
  split
  · exact Answers.bind fun _ => s.answers_markExported m.id
  · exact s.answers_markExported m.id

theorem answers_finishPlainMethod {m : Method} {exposure : Exposure} {wrapper : String}
    (h : exposure ≠ .shim .privPureVirtual) :
    s.Answers m.id (s.finishPlainMethod node m exposure wrapper) := by
  unfold finishPlainMethod
  rw [if_neg h]
  split
  · exact s.answers_warn _ _
  · exact answers_registerMaker

theorem answers_registerPlainMethod {m : Method} {exposure : Exposure}
    (h : exposure ≠ .shim .privPureVirtual) :
    s.Answers m.id (s.registerPlainMethod cls node m exposure) := by
  cases exposure with
  | direct =>
    rw [registerPlainMethod_direct]
    exact answers_finishPlainMethod h
  | hidden =>
    rw [registerPlainMethod_hidden]
    exact answers_finishPlainMethod h
  | shim kind =>
    rw [registerPlainMethod_shim]
    exact Answers.bind fun _ => Answers.bind fun _ => answers_finishPlainMethod h

theorem answers_registerTransformedMethod {m : Method} {exposure : Exposure}
    (h : exposure ≠ .shim .privPureVirtual) :
    s.Answers m.id (s.registerTransformedMethod cls node m exposure) := by
  intro b u b' hrun
  obtain ⟨w, b₁, t, v, b₂, b₃, -, -, -, -, -, hfinish⟩ := registerTransformedMethod_ok hrun
  refine (?_ : s.Answers m.id _) _ _ _ hfinish
  unfold finishTransformedMethod
  rw [if_neg h]
  split
  · exact s.answers_warn _ _
  · exact Answers.bind fun _ => Answers.bind fun _ => answers_registerMaker

/-- A method that is bound is the function of the graph, unless it is hidden. -/
theorem registerMethod_reached {d : Declaration} {c : Callable}
    (h : (s.registerMethod cls node id).run b = .ok (u, b')) (hd : s.graph.get? id = some d)
    (hc : d.kind = .callable c) (hreached : Exposure.of d.access c ≠ .hidden) :
    ∃ m b₁, m.id = id ∧ m.decl = d ∧ m.callable = c ∧ s.Describes m ∧
      ((s.registerPlainMethod cls node m (Exposure.of d.access c)).run b₁ = .ok (u, b') ∧
          m.decl.config.transformers.isEmpty ∨
        (s.registerTransformedMethod cls node m (Exposure.of d.access c)).run b₁ = .ok (u, b') ∧
          ¬ m.decl.config.transformers.isEmpty) := by
  rcases registerMethod_ok h with ⟨-, hhidden⟩ | ⟨m, b₁, rfl, hm, -, hregister⟩
  · exact absurd (hhidden d c hd hc) hreached
  · obtain rfl : m.decl = d := Option.some.inj (hm.decl.symm.trans hd)
    obtain rfl : m.callable = c := DeclKind.callable.inj (hm.kind.symm.trans hc)
    refine ⟨m, b₁, rfl, rfl, rfl, hm, ?_⟩
    exact hregister.imp And.symm And.symm

/-- **A method that is not private is registered, or the user is told.** -/
theorem answers_registerMethod (hmethod : s.graph.isMethod id)
    (haccess : s.graph.access? id ≠ some .priv) :
    s.Answers id (s.registerMethod cls node id) := by
  intro b u b' h
  obtain ⟨c, hc, -⟩ := DeclGraph.isMethod_iff.mp hmethod
  obtain ⟨d, hd, hkind⟩ := Option.map_eq_some_iff.mp (DeclGraph.callable?_eq_some_iff.mp hc)
  have hnot : d.access ≠ .priv := by
    intro hpriv
    unfold DeclGraph.access? at haccess
    rw [hd, ← hpriv] at haccess
    exact haccess rfl
  have hhidden : Exposure.of d.access c ≠ .hidden :=
    fun h => hnot (Exposure.of_eq_hidden_iff.mp h).1
  have hpure : Exposure.of d.access c ≠ .shim .privPureVirtual :=
    fun h => hnot (Exposure.of_eq_privPureVirtual_iff.mp h).1
  obtain ⟨m, b₁, rfl, rfl, rfl, -, hregister⟩ := registerMethod_reached h hd hkind hhidden
  rcases hregister with ⟨hregister, -⟩ | ⟨hregister, -⟩
  · exact answers_registerPlainMethod hpure _ _ _ hregister
  · exact answers_registerTransformedMethod hpure _ _ _ hregister

/-! ### Other members -/

theorem answers_registerEnum (enumerators : List Enumerator) :
    s.Answers id (s.registerEnum node id enumerators) := by
  unfold registerEnum
  extract_lets config names values register
  have hregister : ∀ kind, s.Answers id (register kind) :=
    fun _ => Answers.bind fun _ => s.answers_markExported id
  split
  · rw [pure_bind]
    exact hregister _
  · refine Answers.bind fun name => ?_
    rw [pure_bind]
    exact hregister _

theorem answers_registerMemberVariable {v : VariableDecl} :
    s.Answers id (s.registerMemberVariable cls node id v) := by
  unfold registerMemberVariable
  refine Answers.bind fun pythonName => ?_
  split
  · exact Answers.bind fun _ => s.answers_markExported id
  · exact Answers.bind fun _ => Answers.bind fun _ => Answers.bind fun _ =>
      s.answers_markExported id

/-- **A member that a class offers is bound, or the user is told.** -/
theorem answers_registerMember {nested : NodeId → DeclId → ClassDecl → Binding Unit}
    (h : s.graph.IsOffered id) : s.Answers id (s.registerMember nested cls node id) := by
  rcases h with ⟨values, hkind⟩ | ⟨v, hkind⟩ | ⟨hmethod, haccess⟩
  · unfold registerMember
    rw [hkind]
    exact answers_registerEnum values
  · unfold registerMember
    rw [hkind]
    exact answers_registerMemberVariable
  · rw [registerMember_of_isMethod hmethod]
    exact answers_registerMethod hmethod haccess

/-! ### Wrapper classes that are made -/

/-- A function within reach that is not public, or virtual, has a stand-in. -/
theorem Exposure.exists_shim {access : Access} {c : Callable}
    (hreached : Exposure.of access c ≠ .hidden) (h : access ≠ .pub ∨ c.virtuality.isVirtual) :
    ∃ kind, Exposure.of access c = .shim kind := by
  unfold Exposure.of at hreached ⊢
  cases access <;> cases hvirtual : c.virtuality <;> cases c.isStatic <;>
    simp_all [Virtuality.isVirtual]

/-- **A function that is bound through a wrapper class makes it**, unless it is hidden. -/
theorem exists_wrapper?_of_registerMethod {d : Declaration} {c : Callable}
    (h : (s.registerMethod cls node id).run b = .ok (u, b')) (hd : s.graph.get? id = some d)
    (hc : d.kind = .callable c) (hreached : Exposure.of d.access c ≠ .hidden)
    (hbound : s.graph.BoundInWrapper id) : ∃ w, b'.wrapper? cls = some w := by
  obtain ⟨m, b₁, rfl, rfl, rfl, hm, hregister⟩ := registerMethod_reached h hd hc hreached
  rcases hregister with ⟨hregister, hplain⟩ | ⟨hregister, htransformed⟩
  · obtain ⟨d', c', hd', hc', hwhy⟩ := hbound
    obtain rfl : m.decl = d' := Option.some.inj (hd.symm.trans hd')
    obtain rfl : m.callable = c' := DeclKind.callable.inj (hc.symm.trans hc')
    -- without transformers it is the stand-in that the wrapper class is made for
    rw [← or_assoc] at hwhy
    obtain ⟨kind, hkind⟩ := Exposure.exists_shim hreached
      (hwhy.resolve_right fun hne => hne (List.isEmpty_iff.mp hplain))
    rw [hkind] at hregister
    obtain ⟨w, b₂, n, b₃, hwrapper, hplace, hfinish⟩ := registerPlainMethod_ok hregister
    obtain ⟨-, t, -, rfl⟩ := place_ok hplace
    have hlater : Later { b₂ with tree := t } b' :=
      moves_later s none (moves_finishPlainMethod hm hplain) _ _ _ hfinish
    exact ⟨w, hlater.wrapper cls w (run_wrapperOf (fun _ _ => True) hwrapper).2⟩
  · obtain ⟨w, b₂, t, v, b₃, b₄, hwrapper, -, hheaders, hplaced, hnone, hfinish⟩ :=
      registerTransformedMethod_ok hregister
    have hheaded : Later b₂ b₃ := moves_later s none (moves_addHeaders _ _) _ _ _ hheaders
    have hlater : Later b₄ b' :=
      moves_later s none (moves_finishTransformedMethod hm htransformed) _ _ _ hfinish
    have hw : b₃.wrapper? cls = some w :=
      hheaded.wrapper cls w (run_wrapperOf (fun _ _ => True) hwrapper).2
    refine ⟨w, hlater.wrapper cls w ?_⟩
    cases hkind : m.standIn? s.graph t (Exposure.of m.decl.access m.callable) with
    | none => rwa [hnone hkind]
    | some kind =>
      obtain ⟨n, hplace⟩ := hplaced kind hkind
      obtain ⟨-, t', -, rfl⟩ := place_ok hplace
      exact hw

/-- A member that comes into question is within reach, if it is a function. -/
theorem ne_hidden_of_isCandidate {d : Declaration} {c : Callable} (hd : s.graph.get? id = some d)
    (hc : d.kind = .callable c) (h : s.graph.isCandidate id d.access) :
    Exposure.of d.access c ≠ .hidden := by
  intro hhidden
  obtain ⟨hpriv, hpure⟩ := Exposure.of_eq_hidden_iff.mp hhidden
  have hcallable : s.graph.callable? id = some c := by
    rw [DeclGraph.callable?_eq_some_iff, DeclGraph.kind?, hd, ← hc]
    rfl
  unfold DeclGraph.isCandidate at h
  rw [hpriv, hcallable] at h
  exact hpure (eq_of_beq h)

/-- A function that is bound again for an heir is bound through the wrapper class. -/
theorem exists_wrapper?_of_inherited {found : List DeclId} {f : DeclId}
    (hfound : s.inheritedMethods cls = .ok found) (hf : f ∈ found)
    (h : (s.registerMethod cls node f).run b = .ok (u, b')) : ∃ w, b'.wrapper? cls = some w := by
  obtain ⟨-, -, o, -, -, hoffers, -⟩ := inheritedMethods_offered hfound hf
  obtain ⟨c, hc, -, haccess⟩ := hoffers.inheritable
  obtain ⟨d, hd, hkind⟩ := Option.map_eq_some_iff.mp (DeclGraph.callable?_eq_some_iff.mp hc)
  have hinheritable : isInheritable d.access c.virtuality := by
    rwa [DeclGraph.access?, hd] at haccess
  refine exists_wrapper?_of_registerMethod h hd hkind (fun hhidden => ?_) ⟨d, c, hd, hkind, ?_⟩
  · obtain ⟨hpriv, hpure⟩ := Exposure.of_eq_hidden_iff.mp hhidden
    rw [hpriv] at hinheritable
    exact hpure (eq_of_beq hinheritable)
  · cases haccess : d.access with
    | pub =>
      rw [haccess] at hinheritable
      exact .inr (.inl hinheritable)
    | _ => exact .inl fun h => nomatch h

theorem exists_wrapper?_of_registerMemberVariable {v : VariableDecl}
    (h : (s.registerMemberVariable cls node id v).run b = .ok (u, b'))
    (hindirect : v.bits.isSome ∨ s.pointsToClass v) : ∃ w, b'.wrapper? cls = some w := by
  unfold registerMemberVariable at h
  obtain ⟨pythonName, b₁, -, h⟩ := run_bind_eq_ok.mp h
  rw [if_neg (by cases hbits : v.bits <;> simp_all)] at h
  obtain ⟨w, b₂, hwrapper, h⟩ := run_bind_eq_ok.mp h
  -- what follows places nodes and notes the variable, but no wrapper class
  obtain ⟨n, b₃, haccessor, h⟩ := run_bind_eq_ok.mp h
  obtain ⟨-, t, -, rfl⟩ := place_ok haccessor
  obtain ⟨n', b₄, hproperty, h⟩ := run_bind_eq_ok.mp h
  obtain ⟨-, t', -, rfl⟩ := place_ok hproperty
  obtain rfl := run_modify_eq_ok.mp h
  exact ⟨w, (run_wrapperOf (fun _ _ => True) hwrapper).2⟩

/-! ### Classes -/

/-- The class has been registered, with all that it offers and needs. -/
structure Settled (s : BindingSetup) (b : Binder) (cls : DeclId) : Prop where
  exported : cls ∈ b.exported
  node : ∃ n, (cls, n) ∈ b.classNodes
  answered : ∀ m, s.BindsMember cls m → s.graph.IsOffered m → s.Answered b m
  wrapper : s.NeedsWrapper cls → ∃ w, b.wrapper? cls = some w

theorem Settled.kept (h : s.Settled b cls) (hkept : Kept b b') : s.Settled b' cls where
  exported := hkept.exported h.exported
  node := have ⟨n, hn⟩ := h.node; ⟨n, hkept.classNodes hn⟩
  answered m hm hoffered := (h.answered m hm hoffered).kept hkept
  wrapper hneeds := have ⟨w, hw⟩ := h.wrapper hneeds; ⟨w, hkept.wrapper cls w hw⟩

/-- A class is settled when it has been filled. -/
theorem settled_of_fillClass {nested : NodeId → DeclId → ClassDecl → Binding Unit}
    (hnested : ∀ id c, s.graph.kind? id = some (.cls c) → s.BindsMember cls id →
      Moves (s.Enters ids body node) (nested node id c))
    (h : (s.fillClass nested cls node).run b = .ok (u, b')) (hnode : (cls, node) ∈ b.classNodes)
    (hexported : cls ∈ b.exported) : s.Settled b' cls := by
  obtain ⟨hrun, hmember, hinherited, hcode⟩ := run_fillClass hnested h hnode
  have hkept := kept_of_run hrun
  refine ⟨hkept.exported hexported, ⟨node, hkept.classNodes hnode⟩, fun m hm hoffered => ?_,
    fun hneeds => ?_⟩
  · obtain ⟨b₁, b₂, v, -, hm, hafter⟩ := hmember m hm
    exact (answers_registerMember hoffered _ _ _ hm).kept hafter
  · cases hneeds with
    | code hne => exact hcode hne
    | «variable» hm hkind hindirect =>
      obtain ⟨b₁, b₂, u, -, hrun, hafter⟩ := hmember _ hm
      unfold registerMember at hrun
      rw [hkind] at hrun
      obtain ⟨w, hw⟩ := exists_wrapper?_of_registerMemberVariable hrun hindirect
      exact ⟨w, hafter.wrapper cls w hw⟩
    | method hm hmethod hbound =>
      obtain ⟨b₁, b₂, u, -, hrun, hafter⟩ := hmember _ hm
      rw [registerMember_of_isMethod hmethod] at hrun
      obtain ⟨d, c, hd, hc, -⟩ := id hbound
      obtain ⟨d', hd', hcandidate⟩ := hm.candidate
      obtain rfl : d = d' := Option.some.inj (hd.symm.trans hd')
      obtain ⟨w, hw⟩ := exists_wrapper?_of_registerMethod hrun hd hc
        (ne_hidden_of_isCandidate hd hc hcandidate) hbound
      exact ⟨w, hafter.wrapper cls w hw⟩
    | inherited hfound hne =>
      obtain ⟨f, hf⟩ := List.exists_mem_of_ne_nil _ hne
      obtain ⟨b₁, b₂, u, hrun, hafter⟩ := hinherited _ hfound f hf
      obtain ⟨w, hw⟩ := exists_wrapper?_of_inherited hfound hf hrun
      exact ⟨w, hafter.wrapper cls w hw⟩

/-- The member is a class that is bound with the class. -/
def Nests (s : BindingSetup) (cls m : DeclId) : Prop := s.graph.isClass m ∧ s.BindsMember cls m

/-- **A class that is found from the global namespace is settled with all classes nested in it.** -/
theorem settled_of_registerClass (s : BindingSetup) (hs : s.graph.Scoped) (ids : List DeclId)
    (body : NodeId) : ∀ (depth : Nat) {p : NodeId} {cls : DeclId} {c : ClassDecl}
      {l : List DeclId} {b b' : Binder} {u : PUnit}, s.graph.kind? cls = some (.cls c) → s.Admitted ids cls →
      s.graph.Reached cls l → s.graph.size < depth + l.length → b.Site body p →
      (s.registerClass depth p cls c).run b = .ok (u, b') →
      ∀ d, Relation.ReflTransGen s.Nests cls d → s.Settled b' d
  | 0, _, cls, c, l, _, _, _, hkind, _, hreached, hdepth, _, _, _, _ => by
    -- the scopes around a class are fewer than the declarations, so that the bound is not felt
    have hclass : s.graph.isClass cls := DeclGraph.isClass_iff.mpr ⟨c, hkind⟩
    have := (hreached.climbs hs).length_lt (DeclGraph.lt_size_of_isClass hclass) hreached.lt_size
    omega
  | depth + 1, p, cls, c, l, b, b', u, hkind, hadmitted, hreached, hdepth, hsite, h, d, hd => by
    have hclass : s.graph.isClass cls := DeclGraph.isClass_iff.mpr ⟨c, hkind⟩
    obtain ⟨b₁, b₂, v, node, -, hnode, hexported, hfill, hafter⟩ :=
      registerClass_noted hkind hadmitted h hsite
    have hnested : ∀ id c', s.graph.kind? id = some (.cls c') → s.BindsMember cls id →
        Moves (s.Enters ids body node) (s.registerClass depth node id c') :=
      fun id c' hkind' hmember => s.enters_registerClass ids body depth node id c' hkind'
        (.member hadmitted hclass hmember)
    have hkept := kept_of_run hafter
    rcases hd.cases_head with rfl | ⟨m, ⟨hm, hmember⟩, hd⟩
    · exact (settled_of_fillClass hnested hfill hnode hexported).kept hkept
    · obtain ⟨c', hkind'⟩ := DeclGraph.isClass_iff.mp hm
      obtain ⟨b₃, b₄, w, hnode₃, hrun, hkept'⟩ := (run_fillClass hnested hfill hnode).2.1 m hmember
      rw [registerMember_cls hkind'] at hrun
      have hsettled := s.settled_of_registerClass hs ids body depth hkind'
        (.member hadmitted hclass hmember) (hreached.member hmember.member)
        (by rw [List.length_cons]; omega) (.inr ⟨cls, hnode₃⟩) hrun d hd
      exact hsettled.kept (trans_of Kept hkept' hkept)

/-! ### Declarations outside of classes -/

theorem answers_registerPlainFunction {c : Callable} :
    s.Answers id (s.registerPlainFunction body id c) := by
  unfold registerPlainFunction
  dsimp only
  split
  · exact s.answers_warn _ _
  · exact Answers.bind fun _ => Answers.bind fun _ => s.answers_markExported id

theorem answers_registerTransformedFunction {c : Callable} :
    s.Answers id (s.registerTransformedFunction body id c) := by
  unfold registerTransformedFunction
  dsimp only
  refine Answers.bind fun pythonName => Answers.bind fun t => ?_
  split
  · exact s.answers_warn _ _
  · exact Answers.bind fun _ => Answers.bind fun _ => Answers.bind fun _ => Answers.bind fun _ =>
      s.answers_markExported id

/-- An operator with an owner has an operand, so that nothing is left out without a word. -/
theorem answers_registerFreeOperator {c : Callable} {symbol : String} :
    s.Answers id (s.registerFreeOperator id c symbol) := by
  intro b u b' h
  unfold registerFreeOperator at h
  obtain ⟨b₁, b₂, hget, h⟩ := run_bind_eq_ok.mp h
  obtain ⟨rfl, rfl⟩ := run_get_eq_ok.mp hget
  split at h
  · exact s.answers_warn _ _ _ _ _ h
  · next cls node howner =>
    split at h
    · next hnone =>
      rw [List.map_eq_nil_iff] at hnone
      unfold operatorOwner? at howner
      rw [hnone] at howner
      cases howner
    · exact Answers.bind (fun _ => s.answers_markExported id) _ _ _ h

/-- **A declaration that a module offers is bound, or the user is told**, if it takes part. -/
theorem answers_register (hoffered : s.graph.IsOfferedOutside id)
    (hclass : ¬ s.graph.isClass id) (hexportable : s.isExportable id = .ok true) :
    s.Answers id (s.register body id) := by
  intro b u b' h
  have h := run_of_lift_missing hexportable h
  refine (?_ : s.Answers id _) _ _ _ h
  rw [if_pos rfl]
  rcases hoffered with hcls | ⟨values, hkind⟩ | ⟨v, hkind⟩ | ⟨c, hkind, hfree⟩
  · exact absurd hcls hclass
  · rw [hkind]
    exact answers_registerEnum values
  · rw [hkind]
    exact Answers.bind fun _ => Answers.bind fun _ => s.answers_markExported id
  · rw [hkind]
    cases hc : c.kind with
    | freeFunction =>
      dsimp only
      rw [hc]
      dsimp only
      split
      · exact answers_registerPlainFunction
      · exact answers_registerTransformedFunction
    | freeOperator symbol =>
      dsimp only
      rw [hc]
      exact answers_registerFreeOperator
    | _ =>
      rw [hc] at hfree
      cases hfree

/-! ### The module -/

/-- A class that takes part is registered as deeply as classes are nested. -/
theorem register_cls {c : ClassDecl} (hkind : s.graph.kind? id = some (.cls c))
    (hexportable : s.isExportable id = .ok true)
    (h : (s.register body id).run b = .ok (u, b')) :
    (s.registerClass (s.graph.size + 1) body id c).run b = .ok (u, b') := by
  have h := run_of_lift_missing hexportable h
  rw [if_pos rfl, hkind] at h
  exact h

/-- A class that is registered is nested in one that the module has been given. -/
theorem Admitted.exists_nests (h : s.Admitted ids cls) (hclass : s.graph.isClass cls) :
    ∃ id ∈ ids, s.isExportable id = .ok true ∧ s.graph.isClass id ∧
      Relation.ReflTransGen s.Nests id cls := by
  induction h with
  | module hid hexportable => exact ⟨_, hid, hexportable, hclass, .refl⟩
  | member _ hcls hmember ih =>
    obtain ⟨id, hid, hexportable, hidClass, hnests⟩ := ih hcls
    exact ⟨id, hid, hexportable, hidClass, hnests.tail ⟨hclass, hmember⟩⟩

/-- A declaration that the module has been given has its run, and what has been bound stays. -/
theorem bind_registers (h : s.bind ids = .ok b) (hid : id ∈ ids) :
    ∃ body b₁ b₂ v, (s.register body id).run b₁ = .ok (v, b₂) ∧ Kept b₂ b := by
  obtain ⟨t, body, u, -, -, hrun⟩ := bind_ok h
  obtain ⟨b₁, b₂, v, w, hregister, hcontainers, hinclude⟩ := bindAll_ok hrun
  obtain ⟨b₃, b₄, v', -, hrun, hafter⟩ := exists_run_of_forM (R := s.LedgerRun ids body)
    (fun id hid => s.moves_register_noted hid) hregister hid
  have hrest := (hafter.trans (moves_registerContainers_noted _ _ _ hcontainers)).trans
    (moves_includeHeaders_noted _ _ _ hinclude)
  exact ⟨body, b₃, b₄, v', hrun, kept_of_run hrest⟩

/-- **All classes that are admitted to a module are settled in it.** -/
theorem bind_settled (hs : s.graph.Scoped) (hreached : ∀ id ∈ ids, ∃ l, s.graph.Reached id l)
    (h : s.bind ids = .ok b) (hadmitted : s.Admitted ids cls) (hclass : s.graph.isClass cls) :
    s.Settled b cls := by
  obtain ⟨id, hid, hexportable, hidClass, hnests⟩ := hadmitted.exists_nests hclass
  obtain ⟨body, b₁, b₂, v, hrun, hkept⟩ := bind_registers h hid
  obtain ⟨c, hkind⟩ := DeclGraph.isClass_iff.mp hidClass
  obtain ⟨l, hl⟩ := hreached id hid
  have hsettled := s.settled_of_registerClass hs ids body (s.graph.size + 1) hkind
    (.module hid hexportable) hl (by omega) (.inl rfl) (register_cls hkind hexportable hrun)
    cls hnests
  exact hsettled.kept hkept

/-- **Whatever a module offers and takes part in it is bound, or the user is told.** -/
theorem bind_answers (hs : s.graph.Scoped) (hreached : ∀ id ∈ ids, ∃ l, s.graph.Reached id l)
    (h : s.bind ids = .ok b) (hid : id ∈ ids) (hexportable : s.isExportable id = .ok true)
    (hoffered : s.graph.IsOfferedOutside id) : s.Answered b id := by
  by_cases hclass : s.graph.isClass id
  · exact .inl (bind_settled hs hreached h (.module hid hexportable) hclass).exported
  · obtain ⟨body, b₁, b₂, v, hrun, hkept⟩ := bind_registers h hid
    exact (answers_register hoffered hclass hexportable _ _ _ hrun).kept hkept

end BindingSetup

end Bindery
