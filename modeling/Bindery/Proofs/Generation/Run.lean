import Bindery.Generation.Stages
import Bindery.Proofs.Computation

/-!
# Runs of a generation

A generation that finishes has gone through its stages one after the other, each of which has
succeeded.

## Main definitions

* `Generation.Finds` — what the stages of a finished generation have found.

## Main results

* `Generating.run_bind_eq_ok` — a composed step succeeds when both of its parts do.
* `Generation.run_eq` — a generation goes through its stages.
* `Generation.finish_ok`, `Generation.finish_reports` — **what the stages of a finished generation
  have found, and what it reports.**
-/

namespace Bindery

/-! ### Steps -/

namespace Generating

variable {α β : Type} {s s' s'' : Generation} {a c : α} {b : β}

theorem run_bind {m : Generating α} {f : α → Generating β} :
    (m >>= f).run.run s = match m.run.run s with
      | (.ok a, s') => (f a).run.run s'
      | (.error e, s') => (.error e, s') := by
  rw [ExceptT.run_bind, StateT.run_bind]
  rcases m.run.run s with ⟨_ | _, _⟩ <;> rfl

theorem run_bind_eq_ok {m : Generating α} {f : α → Generating β} :
    (m >>= f).run.run s = (.ok b, s'') ↔
      ∃ a s', m.run.run s = (.ok a, s') ∧ (f a).run.run s' = (.ok b, s'') := by
  rw [run_bind]
  constructor
  · intro h
    split at h
    · next a s' hm => exact ⟨a, s', hm, h⟩
    · cases h
  · rintro ⟨a, s', hm, hf⟩
    rw [hm]
    exact hf

theorem run_pure_eq_ok : (pure a : Generating α).run.run s = (.ok c, s') ↔ a = c ∧ s = s' := by
  show ((Except.ok a : Except GenerationError α), s) = (.ok c, s') ↔ _
  rw [Prod.mk.injEq, Except.ok.injEq]

theorem run_get_eq_ok : (get : Generating Generation).run.run s = (.ok s', s'') ↔
    s = s' ∧ s = s'' := by
  show ((Except.ok s : Except GenerationError Generation), s) = (.ok s', s'') ↔ _
  rw [Prod.mk.injEq, Except.ok.injEq]

theorem run_get_bind {f : Generation → Generating β} :
    (get >>= f : Generating β).run.run s = (f s).run.run s := rfl

theorem run_set_eq_ok {u : PUnit} : (set s' : Generating PUnit).run.run s = (.ok u, s'') ↔
    s' = s'' := by
  show ((Except.ok ⟨⟩ : Except GenerationError PUnit), s') = (.ok u, s'') ↔ _
  rw [Prod.mk.injEq, and_iff_right rfl]

theorem run_known_eq_ok {v : Except MissingDecl α} :
    (Generation.known v).run.run s = (.ok c, s') ↔ v = .ok c ∧ s = s' := by
  unfold Generation.known
  cases v with
  | ok a =>
    rw [Except.ok.injEq]
    exact run_pure_eq_ok
  | error m => exact ⟨fun h => (nomatch h), fun h => (nomatch h.1)⟩

end Generating

namespace Generation

open Generating

variable {s s' : Generation} {u : PUnit} {rules : List PolicyRule}

/-- A step among no observers is the step. -/
theorem runStep_nil {step : Step} : (runStep [] step).run.run s = step.run.run.run s := by
  unfold runStep
  rw [run_bind]
  show ((step.run >>= fun _ => [].forM _ : Generating PUnit)).run.run s = _
  rw [run_bind]
  rcases step.run.run.run s with ⟨_ | _, _⟩ <;> rfl

/-! ### Stages -/

theorem prepare_eq_ok : prepare.run.run s = (.ok u, s') ↔
    ∃ c, s.graph.candidates s.options = .ok c ∧
      s' = { s with
        candidates := s.candidates ++ c.declarations
        verdicts := c.judged.reverse ++ s.verdicts }.report (c.diagnostics s.graph) := by
  unfold prepare
  constructor
  · intro h
    obtain ⟨s₁, s₂, hget, h⟩ := run_bind_eq_ok.mp h
    obtain ⟨rfl, rfl⟩ := run_get_eq_ok.mp hget
    obtain ⟨c, s₃, hknown, h⟩ := run_bind_eq_ok.mp h
    obtain ⟨hc, rfl⟩ := run_known_eq_ok.mp hknown
    exact ⟨c, hc, (run_set_eq_ok.mp h).symm⟩
  · rintro ⟨c, hc, rfl⟩
    refine run_bind_eq_ok.mpr ⟨s, s, rfl, ?_⟩
    exact run_bind_eq_ok.mpr ⟨c, s, run_known_eq_ok.mpr ⟨hc, rfl⟩, rfl⟩

theorem order_eq_ok : order.run.run s = (.ok u, s') ↔
    ∃ o, s.graph.order s.candidates = .ok o ∧
      s' = { s with order? := some o }.report
        (o.backEdges.map fun (cls, dependency) => backEdgeDiagnostic s.graph cls dependency) := by
  unfold order
  constructor
  · intro h
    obtain ⟨s₁, s₂, hget, h⟩ := run_bind_eq_ok.mp h
    obtain ⟨rfl, rfl⟩ := run_get_eq_ok.mp hget
    obtain ⟨o, s₃, hknown, h⟩ := run_bind_eq_ok.mp h
    obtain ⟨ho, rfl⟩ := run_known_eq_ok.mp hknown
    exact ⟨o, ho, (run_set_eq_ok.mp h).symm⟩
  · rintro ⟨o, ho, rfl⟩
    refine run_bind_eq_ok.mpr ⟨s, s, rfl, ?_⟩
    exact run_bind_eq_ok.mpr ⟨o, s, run_known_eq_ok.mpr ⟨ho, rfl⟩, rfl⟩

/-- What has been put in order is bound. -/
theorem run_create (rules : List PolicyRule) {o : EmissionOrder} (ho : s.order? = some o) :
    (create rules).run.run s =
      match ({ graph := s.graph, options := s.options, verdicts := s.verdicts, rules } :
        BindingSetup).bind o.declarations with
      | .error e => (.error (.binding e), s)
      | .ok b => (.ok (), { s with
          exported := b.exported
          collisions := b.mangler.collisions
          tree? := some b.tree }.report b.diagnostics) := by
  unfold create
  rw [run_get_bind, ho]
  dsimp only
  cases ({ graph := s.graph, options := s.options, verdicts := s.verdicts, rules } :
    BindingSetup).bind o.declarations <;> rfl

theorem create_ok (h : (create rules).run.run s = (.ok u, s')) :
    ∃ o b, s.order? = some o ∧
      ({ graph := s.graph, options := s.options, verdicts := s.verdicts, rules } :
        BindingSetup).bind o.declarations = .ok b ∧
      s' = { s with
        exported := b.exported
        collisions := b.mangler.collisions
        tree? := some b.tree }.report b.diagnostics := by
  cases ho : s.order? with
  | none =>
    unfold create at h
    obtain ⟨s₁, s₂, hget, h⟩ := run_bind_eq_ok.mp h
    obtain ⟨rfl, rfl⟩ := run_get_eq_ok.mp hget
    rw [ho] at h
    cases h
  | some o =>
    rw [run_create rules ho] at h
    split at h
    · cases h
    · next b hb => exact ⟨o, b, rfl, hb, ho ▸ (Prod.mk.inj h).2.symm⟩

theorem diagnose_ok {checks : List Check} (h : (diagnose checks).run.run s = (.ok u, s')) :
    ∃ found, checks.mapM (·.diagnostics s) = .ok found ∧ s' = s.report found.flatten := by
  unfold diagnose at h
  obtain ⟨s₁, s₂, hget, h⟩ := run_bind_eq_ok.mp h
  obtain ⟨rfl, rfl⟩ := run_get_eq_ok.mp hget
  obtain ⟨found, s₃, hknown, h⟩ := run_bind_eq_ok.mp h
  obtain ⟨hfound, rfl⟩ := run_known_eq_ok.mp hknown
  obtain ⟨v, s₄, hset, h⟩ := run_bind_eq_ok.mp h
  obtain rfl := run_set_eq_ok.mp hset
  split at h
  · cases h
  · obtain ⟨-, rfl⟩ := run_pure_eq_ok.mp h
    exact ⟨found, hfound, rfl⟩

theorem forM_runStep_nil : ∀ {steps : List Step} {s : Generation},
    (steps.forM (runStep [])).run.run s = (steps.forM (·.run)).run.run s
  | [], _ => rfl
  | step :: steps, s => by
    show (runStep [] step >>= fun _ => steps.forM (runStep [])).run.run s =
      (step.run >>= fun _ => steps.forM (·.run)).run.run s
    rw [run_bind, run_bind, runStep_nil]
    rcases step.run.run.run s with ⟨_ | _, s'⟩
    · rfl
    · exact forM_runStep_nil

/-- A generation goes through its stages one after the other. -/
theorem run_eq (g : DeclGraph) (options : ModuleOptions) (rules : List PolicyRule) :
    run g options rules =
      (Stage.all.forM fun stage => stage.run rules).run.run { graph := g, options } := by
  unfold run runAll
  rw [forM_runStep_nil]
  rfl

/-- A generation finishes when its stages succeed one after the other. -/
theorem finish_eq_ok {g : DeclGraph} {options : ModuleOptions} :
    finish g options rules = .ok s ↔ ∃ s₁ s₂ s₃,
      prepare.run.run { graph := g, options } = (.ok (), s₁) ∧ order.run.run s₁ = (.ok (), s₂) ∧
      (create rules).run.run s₂ = (.ok (), s₃) ∧ (diagnose Check.all).run.run s₃ = (.ok (), s) := by
  have hrun : finish g options rules = .ok s ↔ run g options rules = (.ok (), s) := by
    unfold finish
    constructor
    · intro h
      split at h
      · next heq => cases h; exact heq
      · cases h
    · intro h
      rw [h]
  rw [hrun, run_eq]
  constructor
  · intro h
    obtain ⟨_, s₁, hprepare, h⟩ := run_bind_eq_ok.mp h
    obtain ⟨_, s₂, horder, h⟩ := run_bind_eq_ok.mp h
    obtain ⟨_, s₃, hcreate, h⟩ := run_bind_eq_ok.mp h
    obtain ⟨_, s₄, hdiagnose, h⟩ := run_bind_eq_ok.mp h
    obtain ⟨-, rfl⟩ := run_pure_eq_ok.mp h
    exact ⟨s₁, s₂, s₃, hprepare, horder, hcreate, hdiagnose⟩
  · rintro ⟨s₁, s₂, s₃, hprepare, horder, hcreate, hdiagnose⟩
    refine run_bind_eq_ok.mpr ⟨(), s₁, hprepare, ?_⟩
    refine run_bind_eq_ok.mpr ⟨(), s₂, horder, ?_⟩
    refine run_bind_eq_ok.mpr ⟨(), s₃, hcreate, ?_⟩
    exact run_bind_eq_ok.mpr ⟨(), s, hdiagnose, rfl⟩

/-- A generation whose declarations cannot be bound fails for the same reason. -/
theorem finish_of_create_error {g : DeclGraph} {options : ModuleOptions} {s₁ s₂ s₃ : Generation}
    {e : GenerationError} (hprepare : prepare.run.run { graph := g, options } = (.ok (), s₁))
    (horder : order.run.run s₁ = (.ok (), s₂))
    (hcreate : (create rules).run.run s₂ = (.error e, s₃)) :
    finish g options rules = .error e := by
  have hrun : run g options rules = (.error e, s₃) := by
    rw [run_eq]
    show (prepare >>= fun _ => order >>= fun _ => create rules >>= fun _ => _).run.run _ = _
    rw [run_bind, hprepare]
    dsimp only
    rw [run_bind, horder]
    dsimp only
    rw [run_bind, hcreate]
  unfold finish
  rw [hrun]

/-- What the candidates of a finished generation have been bound from. -/
abbrev setup (s : Generation) (g : DeclGraph) (options : ModuleOptions) (rules : List PolicyRule) :
    BindingSetup where
  graph := g
  options := options
  verdicts := s.verdicts
  rules := rules

/-- What the stages of a finished generation have found, and what it keeps of that. -/
structure Finds (s : Generation) (g : DeclGraph) (options : ModuleOptions)
    (rules : List PolicyRule) (c : Candidates) (o : EmissionOrder) (b : Binder) : Prop where
  offered : g.candidates options = .ok c
  ordered : g.order c.declarations = .ok o
  bound : (s.setup g options rules).bind o.declarations = .ok b
  candidates : s.candidates = c.declarations
  verdicts : s.verdicts = c.judged.reverse
  tree : s.tree? = some b.tree
  exported : s.exported = b.exported
  judged : c.diagnostics g ⊆ s.diagnostics
  told : b.diagnostics ⊆ s.diagnostics

/-- **What the stages of a finished generation have found.** -/
theorem finish_ok {g : DeclGraph} {options : ModuleOptions}
    (h : finish g options rules = .ok s) : ∃ c o b, s.Finds g options rules c o b := by
  obtain ⟨s₁, s₂, s₃, hprepare, horder, hcreate, hdiagnose⟩ := finish_eq_ok.mp h
  obtain ⟨c, hc, rfl⟩ := prepare_eq_ok.mp hprepare
  obtain ⟨o, ho, rfl⟩ := order_eq_ok.mp horder
  obtain ⟨o', b, ho', hb, rfl⟩ := create_ok hcreate
  obtain ⟨found, -, rfl⟩ := diagnose_ok hdiagnose
  cases ho'
  refine ⟨c, o, b, hc, ho, hb, rfl, List.append_nil _, rfl, rfl, fun d hd => ?_, fun d hd => ?_⟩
  · exact List.mem_append_left _ (List.mem_append_left _ (List.mem_append_left _ hd))
  · exact List.mem_append_left _ (List.mem_append_right _ hd)

/-- A finished generation has bound declarations, and reports whatever its checks find. -/
theorem finish_reports {g : DeclGraph} {options : ModuleOptions}
    (h : finish g options rules = .ok s) :
    ∃ o b, s.order? = some o ∧
      ({ graph := g, options, verdicts := s.verdicts, rules } : BindingSetup).bind
        o.declarations = .ok b ∧
      s.graph = g ∧ s.tree? = some b.tree ∧ s.collisions = b.mangler.collisions ∧
      ∀ check : Check, ∃ ds, check.diagnostics s = .ok ds ∧ ds ⊆ s.diagnostics := by
  obtain ⟨s₁, s₂, s₃, hprepare, horder, hcreate, hdiagnose⟩ := finish_eq_ok.mp h
  obtain ⟨c, -, rfl⟩ := prepare_eq_ok.mp hprepare
  obtain ⟨o, -, rfl⟩ := order_eq_ok.mp horder
  obtain ⟨o', b, ho, hb, rfl⟩ := create_ok hcreate
  obtain ⟨found, hfound, rfl⟩ := diagnose_ok hdiagnose
  refine ⟨o', b, ho, hb, rfl, rfl, rfl, fun check => ?_⟩
  obtain ⟨ds, hds, hcheck⟩ := Except.exists_mem_of_mapM hfound
    (show check ∈ Check.all by cases check <;> decide)
  refine ⟨ds, ?_, fun d hd => List.mem_append_right _ (List.mem_flatten.mpr ⟨ds, hds, hd⟩)⟩
  rw [← hcheck]
  cases check <;> rfl

end Generation

end Bindery
