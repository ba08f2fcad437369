import Bindery.Binding.Module
import Bindery.Proofs.Binding.Steps
import Bindery.Proofs.Decl.Scopes

/-!
# Bindings of methods

A method is bound with its stand-in in front, if it has one, and its registration behind.  Both are
steps of a run.

## Main definitions

* `BindingSetup.Describes` — a method is what the graph says.
* `BindingSetup.finishPlainMethod`, `BindingSetup.finishTransformedMethod` — what follows the
  stand-in.

## Main results

* `registerPlainMethod_ok`, `registerTransformedMethod_ok`, `registerMethod_ok` — the parts of a
  successful binding.
* `moves_registerMethod` — **a method is bound by a run of steps.**
-/

namespace Bindery

open Binding

namespace Binding

variable {R : Binder → Binder → Prop} [RunRelation R]

theorem moves_identifier (name : String) : Moves R (identifier name) := by
  intro b mangled b' h
  unfold identifier at h
  rw [run_modifyGet_eq_ok] at h
  obtain ⟨-, rfl⟩ := Prod.mk.inj h
  exact RunRelation.meet b name

theorem moves_freshIn (scope wanted : String) : Moves R (freshIn scope wanted) :=
  Moves.modifyGet fun _ => ⟨rfl, rfl, rfl⟩

theorem moves_markExported (id : DeclId) : Moves R (markExported id) :=
  Moves.modify fun _ => ⟨rfl, rfl, rfl⟩

theorem moves_requestStatic (node : NodeId) (pythonName : String) :
    Moves R (requestStatic node pythonName) := by
  refine Moves.modify fun b => ?_
  split <;> exact ⟨rfl, rfl, rfl⟩

theorem moves_takeStatic (node : NodeId) : Moves R (takeStatic node) :=
  Moves.modifyGet fun _ => ⟨rfl, rfl, rfl⟩

end Binding

namespace BindingSetup

section

variable (s : BindingSetup) {R : Binder → Binder → Prop} [RunRelation R]

theorem moves_warn (id : DeclId) (message : String) : Moves R (s.warn id message) :=
  Moves.modify fun _ => ⟨rfl, rfl, rfl⟩

theorem moves_pythonName (id : DeclId) : Moves R (s.pythonName id) := by
  unfold pythonName
  refine (Moves.lift_missing _).bind fun name => ?_
  split
  · exact Moves.pure name
  · exact moves_identifier name

theorem moves_exposer (cls : DeclId) : Moves R (s.exposer cls) := moves_identifier _

theorem moves_methodAlias (id : DeclId) (c : Callable) : Moves R (s.methodAlias id c) := by
  unfold methodAlias
  split
  · exact Moves.pure _
  · exact s.moves_pythonName id

theorem moves_method (cls id : DeclId) (d : Declaration) (c : Callable) :
    Moves R (s.method cls id d c) := by
  unfold method
  exact (s.moves_methodAlias id c).bind fun _ => Moves.pure _

end

variable {s : BindingSetup} {may : DeclId → DeclId → Prop} {cls? : Option DeclId} {cls : DeclId}
  {node : NodeId}

/-- A run of steps leaves the skeleton alone, whatever stand-ins it may place. -/
theorem moves_plain (s : BindingSetup) (cls? : Option DeclId) {α : Type} {m : Binding α}
    (h : Moves (s.BindRun (fun _ _ => True) cls?) m) : Moves Plain m :=
  fun b a b' hrun => plain_of_run (h b a b' hrun)

/-- What has been bound stays, whatever stand-ins a run may place. -/
theorem moves_later (s : BindingSetup) (cls? : Option DeclId) {α : Type} {m : Binding α}
    (h : Moves (s.BindRun (fun _ _ => True) cls?) m) : Moves Later m :=
  fun b a b' hrun => later_of_run (h b a b' hrun)

/-! ### Methods and their registrations -/

theorem method_ok {id : DeclId} {d : Declaration} {c : Callable} {b b' : Binder} {m : Method}
    (h : (s.method cls id d c).run b = .ok (m, b')) :
    m.id = id ∧ m.decl = d ∧ m.callable = c ∧ m.fullName = s.graph.fullName id := by
  unfold method at h
  obtain ⟨alias', b₁, -, h⟩ := run_bind_eq_ok.mp h
  obtain ⟨rfl, -⟩ := run_pure_eq_ok.mp h
  exact ⟨rfl, rfl, rfl, rfl⟩

/-- The method is the function of the graph with its number. -/
structure Describes (s : BindingSetup) (m : Method) : Prop where
  decl : s.graph.get? m.id = some m.decl
  kind : m.decl.kind = .callable m.callable
  fullName : m.fullName = s.graph.fullName m.id

theorem Describes.config {m : Method} (h : s.Describes m) :
    s.graph.config m.id = m.decl.config := by
  unfold DeclGraph.config
  rw [h.decl]

theorem Describes.standsIn {m : Method} (h : s.Describes m) {kind : ShimKind}
    (hexposure : Exposure.of m.decl.access m.callable = .shim kind) (hstatic : kind ≠ .protStatic)
    (hprot : kind = .prot → m.decl.config.transformers.isEmpty) : s.StandsIn m.id :=
  ⟨m.decl, m.callable, kind, h.decl, h.kind, hexposure, hstatic, hprot⟩

theorem moves_registerMaker {m : Method} {maker : MakerNode}
    (hcasts : ∀ r ∈ maker.addresses, r.2.isSome = s.graph.castsAddress m.id) :
    Moves (s.BindRun may cls?) (registerMaker node m maker) := by
  have hfits : ∀ b, s.Fits (InWrapper may cls? b node) b (some m.id) (.maker maker) :=
    fun _ => ⟨m.id, rfl, hcasts⟩
  unfold registerMaker
  refine (moves_place hfits).bind fun _ => ?_
  split
  · exact (moves_requestStatic _ _).bind fun _ => moves_markExported _
  · exact moves_markExported _

/-- The registration of a function casts all addresses to which it refers, or none. -/
theorem isSome_of_mem_addresses {m : Method} {g : DeclGraph} {wrapper : String}
    {exposure : Exposure} {policy : CallPolicy} {r : String × Option String}
    (hr : r ∈ (m.maker g wrapper exposure policy).addresses) :
    r.2.isSome = g.needsSignature m.id := by
  have hsignature : ∀ owner, (m.signature? g owner).isSome = g.needsSignature m.id := by
    intro owner
    unfold Method.signature?
    cases g.needsSignature m.id <;> rfl
  have howner : ∃ owner, r.2 = m.signature? g owner := by
    cases exposure with
    | direct | hidden => exact ⟨m.declaring, congrArg Prod.snd (List.mem_singleton.mp hr)⟩
    | shim kind =>
      cases kind with
      | overridable =>
        rcases List.mem_cons.mp hr with rfl | hr
        · exact ⟨m.declaring, rfl⟩
        · exact ⟨wrapper, congrArg Prod.snd (List.mem_singleton.mp hr)⟩
      | pureVirtual | privPureVirtual =>
        exact ⟨m.declaring, congrArg Prod.snd (List.mem_singleton.mp hr)⟩
      | _ => exact ⟨wrapper, congrArg Prod.snd (List.mem_singleton.mp hr)⟩
  obtain ⟨owner, howner⟩ := howner
  rw [howner, hsignature]

/-! ### Methods that are not transformed -/

/-- What is done for a method that is not transformed behind its stand-in in the wrapper class. -/
def finishPlainMethod (s : BindingSetup) (node : NodeId) (m : Method) (exposure : Exposure)
    (wrapper : String) : Binding Unit := do
  if exposure = .shim .privPureVirtual then return
  match s.graph.policy? s.rules m.id with
  | none => s.warn m.id noFunctionPolicy
  | some policy => registerMaker node m (m.maker s.graph wrapper exposure policy)

theorem registerPlainMethod_direct {m : Method} :
    s.registerPlainMethod cls node m .direct = s.finishPlainMethod node m .direct "" := rfl

theorem registerPlainMethod_hidden {m : Method} :
    s.registerPlainMethod cls node m .hidden = s.finishPlainMethod node m .hidden "" := rfl

theorem registerPlainMethod_shim {m : Method} {kind : ShimKind} :
    s.registerPlainMethod cls node m (.shim kind) = (do
      let w ← s.wrapperOf cls
      let _ ← place w.node (.shim (m.shim s.graph kind)) (some m.id)
      s.finishPlainMethod node m (.shim kind) w.name) := rfl

theorem registerPlainMethod_ok {m : Method} {kind : ShimKind} {b b' : Binder} {u : PUnit}
    (h : (s.registerPlainMethod cls node m (.shim kind)).run b = .ok (u, b')) :
    ∃ w b₁ n b₂, (s.wrapperOf cls).run b = .ok (w, b₁) ∧
      (place w.node (.shim (m.shim s.graph kind)) (some m.id)).run b₁ = .ok (n, b₂) ∧
      (s.finishPlainMethod node m (.shim kind) w.name).run b₂ = .ok (u, b') := by
  rw [registerPlainMethod_shim] at h
  obtain ⟨w, b₁, hwrapper, h⟩ := run_bind_eq_ok.mp h
  obtain ⟨n, b₂, hplace, h⟩ := run_bind_eq_ok.mp h
  exact ⟨w, b₁, n, b₂, hwrapper, hplace, h⟩

theorem moves_finishPlainMethod {m : Method} {exposure : Exposure} {wrapper : String}
    (hm : s.Describes m) (huntransformed : m.decl.config.transformers.isEmpty) :
    Moves (s.BindRun may cls?) (s.finishPlainMethod node m exposure wrapper) := by
  unfold finishPlainMethod
  split
  · exact Moves.pure _
  · split
    · exact s.moves_warn _ _
    · refine moves_registerMaker fun r hr => ?_
      rw [isSome_of_mem_addresses hr, DeclGraph.castsAddress, hm.config, huntransformed,
        Bool.true_and]

theorem moves_registerPlainMethod {m : Method} {exposure : Exposure} (hm : s.Describes m)
    (hmay : may cls m.id) (hexposure : Exposure.of m.decl.access m.callable = exposure)
    (huntransformed : m.decl.config.transformers.isEmpty) :
    Moves (s.BindRun may (some cls)) (s.registerPlainMethod cls node m exposure) := by
  cases exposure with
  | direct =>
    rw [registerPlainMethod_direct]
    exact moves_finishPlainMethod hm huntransformed
  | hidden =>
    rw [registerPlainMethod_hidden]
    exact moves_finishPlainMethod hm huntransformed
  | shim kind =>
    intro b u b' h
    obtain ⟨w, b₁, n, b₂, hwrapper, hplace, hfinish⟩ := registerPlainMethod_ok h
    obtain ⟨hwrapped, hw⟩ := run_wrapperOf may hwrapper
    have hfits : s.Fits (InWrapper may (some cls) b₁ w.node) b₁ (some m.id)
        (.shim (m.shim s.graph kind)) := by
      refine ⟨m.id, rfl, ⟨cls, w, rfl, hw, rfl, hmay⟩, ?_⟩
      by_cases hstatic : kind = .protStatic
      · exact .inl hstatic
      · exact .inr (hm.standsIn hexposure hstatic fun _ => huntransformed)
    exact (hwrapped.trans (run_place hplace hfits)).trans
      (moves_finishPlainMethod hm huntransformed _ _ _ hfinish)

/-! ### Transformed methods -/

/-- What is done for a transformed method behind its stand-in in the wrapper class. -/
def finishTransformedMethod (s : BindingSetup) (node : NodeId) (m : Method) (exposure : Exposure)
    (w : WrapperClass) (t : Transformation) : Binding Unit := do
  if exposure = .shim .privPureVirtual then return
  match s.graph.exposedPolicy? s.rules m.id t.state.nativeResult? with
  | none => s.warn m.id noFunctionPolicy
  | some callPolicy =>
    let a := m.adapter w.name exposure
    let name ← freshIn w.name a.wanted
    let _ ← place w.node
      (.transformed {
        kind := .function a.callee
        name
        pythonName := m.pythonName
        code := t.exposedCode s.graph a.self? })
      (some m.id)
    registerMaker node m {
      style := .member
      pythonName := m.pythonName
      fullName := m.fullName
      function := s!"{w.name}::{name}"
      keywords := keywordsOf m.decl.config t.args a.self?.isSome
      callPolicy
      documentation := m.decl.config.documentation }

theorem registerTransformedMethod_eq {m : Method} {exposure : Exposure} :
    s.registerTransformedMethod cls node m exposure = (do
      let w ← s.wrapperOf cls
      let t ← Transformation.ofSpecs m.fullName m.callable m.decl.config.transformers
      addHeaders w.node t.requiredHeaders
      if let some kind := m.standIn? s.graph t exposure then
        let _ ← place w.node kind (some m.id)
      s.finishTransformedMethod node m exposure w t) := rfl

theorem registerTransformedMethod_ok {m : Method} {exposure : Exposure} {b b' : Binder} {u : PUnit}
    (h : (s.registerTransformedMethod cls node m exposure).run b = .ok (u, b')) :
    ∃ w b₁ t v b₂ b₃, (s.wrapperOf cls).run b = .ok (w, b₁) ∧
      Transformation.ofSpecs m.fullName m.callable m.decl.config.transformers = .ok t ∧
      (addHeaders w.node t.requiredHeaders).run b₁ = .ok (v, b₂) ∧
      (∀ kind, m.standIn? s.graph t exposure = some kind →
        ∃ n, (place w.node kind (some m.id)).run b₂ = .ok (n, b₃)) ∧
      (m.standIn? s.graph t exposure = none → b₃ = b₂) ∧
      (s.finishTransformedMethod node m exposure w t).run b₃ = .ok (u, b') := by
  rw [registerTransformedMethod_eq] at h
  obtain ⟨w, b₁, hwrapper, h⟩ := run_bind_eq_ok.mp h
  obtain ⟨t, b₂, hspecs, h⟩ := run_bind_eq_ok.mp h
  obtain ⟨hok, rfl⟩ := run_lift_transform_eq_ok.mp hspecs
  obtain ⟨v, b₂, hheaders, h⟩ := run_bind_eq_ok.mp h
  dsimp only at h
  split at h
  · next kind hkind =>
    obtain ⟨n, b₃, hplace, h⟩ := run_bind_eq_ok.mp h
    refine ⟨w, b₁, t, v, b₂, b₃, hwrapper, hok, hheaders, fun kind' hkind' => ?_, ?_, h⟩
    · obtain rfl : kind = kind' := Option.some.inj (hkind.symm.trans hkind')
      exact ⟨n, hplace⟩
    · intro hnone
      rw [hkind] at hnone
      cases hnone
  · next hnone =>
    exact ⟨w, b₁, t, v, b₂, b₂, hwrapper, hok, hheaders,
      fun kind hkind => absurd hkind (hnone kind), fun _ => rfl, h⟩

/-- What stands in for a transformed function is placed where a stand-in may be. -/
theorem fits_standIn {m : Method} {exposure : Exposure} {t : Transformation} {kind : NodeKind}
    {b : Binder} {w : WrapperClass} (hm : s.Describes m) (hmay : may cls m.id)
    (hexposure : Exposure.of m.decl.access m.callable = exposure)
    (hw : b.wrapper? cls = some w) (hkind : m.standIn? s.graph t exposure = some kind) :
    s.Fits (InWrapper may (some cls) b w.node) b (some m.id) kind := by
  have hin : InWrapper may (some cls) b w.node m.id := ⟨cls, w, rfl, hw, rfl, hmay⟩
  have hstandsIn : ∀ shim, exposure = .shim shim → shim ≠ .protStatic → shim ≠ .prot →
      s.StandsIn m.id := fun shim hshim hstatic hprot =>
    hm.standsIn (hexposure.trans hshim) hstatic fun h => absurd h hprot
  cases exposure with
  | direct => cases hkind
  | hidden => cases hkind
  | shim shim =>
    have hshim := hstandsIn shim rfl
    cases shim with
    | prot => cases hkind
    | protStatic => cases hkind
    | overridable | protOverridable =>
      cases hkind
      exact ⟨m.id, rfl, hin, hshim (fun h => nomatch h) fun h => nomatch h⟩
    | _ =>
      cases hkind
      exact ⟨m.id, rfl, hin, .inr (hshim (fun h => nomatch h) fun h => nomatch h)⟩

theorem moves_finishTransformedMethod {m : Method} {exposure : Exposure} {w : WrapperClass}
    {t : Transformation} (hm : s.Describes m)
    (htransformed : ¬ m.decl.config.transformers.isEmpty) :
    Moves (s.BindRun may cls?) (s.finishTransformedMethod node m exposure w t) := by
  unfold finishTransformedMethod
  split
  · exact Moves.pure _
  · split
    · exact s.moves_warn _ _
    · refine (moves_freshIn _ _).bind fun name => ?_
      refine (moves_place ?_).bind fun _ => moves_registerMaker fun r hr => ?_
      · exact fun _ => trivial
      obtain rfl := List.mem_singleton.mp hr
      rw [DeclGraph.castsAddress, hm.config, Bool.eq_false_iff.mpr htransformed]
      rfl

theorem moves_registerTransformedMethod {m : Method} {exposure : Exposure} (hm : s.Describes m)
    (hmay : may cls m.id) (hexposure : Exposure.of m.decl.access m.callable = exposure)
    (htransformed : ¬ m.decl.config.transformers.isEmpty) :
    Moves (s.BindRun may (some cls)) (s.registerTransformedMethod cls node m exposure) := by
  intro b u b' h
  obtain ⟨w, b₁, t, v, b₂, b₃, hwrapper, -, hheaders, hplaced, hnone, hfinish⟩ :=
    registerTransformedMethod_ok h
  obtain ⟨hwrapped, hw⟩ := run_wrapperOf may hwrapper
  have hheaded : s.BindRun may (some cls) b₁ b₂ := moves_addHeaders _ _ _ _ _ hheaders
  -- protected functions that are not virtual have no stand-in when they are transformed
  have hstanding : s.BindRun may (some cls) b₂ b₃ := by
    cases hkind : m.standIn? s.graph t exposure with
    | none =>
      rw [hnone hkind]
      exact RunRelation.refl b₂
    | some kind =>
      obtain ⟨n, hplace⟩ := hplaced kind hkind
      exact run_place hplace
        (fits_standIn hm hmay hexposure ((later_of_run hheaded).wrapper cls w hw) hkind)
  exact ((hwrapped.trans hheaded).trans hstanding).trans
    (moves_finishTransformedMethod hm htransformed _ _ _ hfinish)

/-! ### All methods -/

/-- A function that is no hidden one is bound as a method, transformed or not. -/
theorem registerMethod_ok {id : DeclId} {b b' : Binder} {u : PUnit}
    (h : (s.registerMethod cls node id).run b = .ok (u, b')) :
    b' = b ∧ (∀ d c, s.graph.get? id = some d → d.kind = .callable c →
        Exposure.of d.access c = .hidden) ∨
      ∃ m b₁, m.id = id ∧ s.Describes m ∧
        (s.method cls m.id m.decl m.callable).run b = .ok (m, b₁) ∧
        (m.decl.config.transformers.isEmpty ∧
          (s.registerPlainMethod cls node m (Exposure.of m.decl.access m.callable)).run b₁ =
            .ok (u, b') ∨
        ¬ m.decl.config.transformers.isEmpty ∧
          (s.registerTransformedMethod cls node m (Exposure.of m.decl.access m.callable)).run b₁ =
            .ok (u, b')) := by
  unfold registerMethod at h
  obtain ⟨d, b₁, hdecl, h⟩ := run_bind_eq_ok.mp h
  obtain ⟨hd, rfl⟩ := run_lift_missing_eq_ok.mp hdecl
  have hget := DeclGraph.decl_eq_ok.mp hd
  split at h
  · next c hc =>
    dsimp only at h
    split at h
    · next hhidden =>
      obtain ⟨-, rfl⟩ := run_pure_eq_ok.mp h
      refine .inl ⟨rfl, fun d' c' hd' hc' => ?_⟩
      obtain rfl : d = d' := Option.some.inj (hget.symm.trans hd')
      rw [hc] at hc'
      cases hc'
      exact hhidden
    · obtain ⟨m, b₁, hmethod, hregister⟩ := run_bind_eq_ok.mp h
      obtain ⟨rfl, rfl, rfl, hname⟩ := method_ok hmethod
      refine .inr ⟨m, b₁, rfl, ⟨hget, hc, hname⟩, hmethod, ?_⟩
      split at hregister
      · next hplain => exact .inl ⟨hplain, hregister⟩
      · next htransformed => exact .inr ⟨htransformed, hregister⟩
  · next hnot =>
    obtain ⟨-, rfl⟩ := run_pure_eq_ok.mp h
    refine .inl ⟨rfl, fun d' c' hd' hc' => ?_⟩
    obtain rfl : d = d' := Option.some.inj (hget.symm.trans hd')
    exact absurd hc' (hnot c')

/-- **A method is bound by a run of steps.** -/
theorem moves_registerMethod {id : DeclId} (hmay : may cls id) :
    Moves (s.BindRun may (some cls)) (s.registerMethod cls node id) := by
  intro b u b' h
  rcases registerMethod_ok h with ⟨rfl, -⟩ | ⟨m, b₁, rfl, hm, hmethod, hregister⟩
  · exact RunRelation.refl _
  · refine BindRun.trans (s.moves_method _ _ _ _ _ _ _ hmethod) ?_
    rcases hregister with ⟨hplain, hregister⟩ | ⟨htransformed, hregister⟩
    · exact moves_registerPlainMethod hm hmay rfl hplain _ _ _ hregister
    · exact moves_registerTransformedMethod hm hmay rfl htransformed _ _ _ hregister

end BindingSetup

end Bindery
