import Bindery.Decl.Samples
import Bindery.Proofs.Binding.SafeModule
import Bindery.Proofs.Generation.Run
import Bindery.Proofs.Transform.Ranges

/-!
# Generations that fail

A generation asks many questions of the graph, edits a tree at positions that it computes, and
checks what it has made.  In a graph whose ids exist all of this goes well, and what is reported on
the way is never an error.  What remains are the transformers that the user asks for: they are the
only ones to refuse a function.

## Main definitions

* `Generation.IsClean` — no diagnostic so far is an error.

## Main results

* `Check.exists_diagnostics` — the checks of a module are made, and find no errors.
* `finish_of_bind_ok`, `finish_of_bind_error` — a generation ends as its binding does.
* `finish_fails_only_transforming` — **a generation fails for the transformers of some function
  only.**
-/

namespace Bindery

/-! ### Diagnostics -/

theorem Candidates.severity_ne_error {c : Candidates} {g : DeclGraph} :
    ∀ d ∈ c.diagnostics g, d.severity ≠ .error := by
  intro d hd
  obtain ⟨⟨id, verdict⟩, -, hverdict⟩ := List.mem_filterMap.mp hd
  cases verdict with
  | no reason =>
    rw [← Option.some.inj hverdict]
    exact Severity.noConfusion
  | _ => cases hverdict

theorem DeclGraph.severity_of_mem_unexposedDiagnostics {g : DeclGraph} {exported : List DeclId}
    {ds : List Diagnostic} (h : g.unexposedDiagnostics exported = .ok ds) :
    ∀ d ∈ ds, d.severity ≠ .error := by
  obtain ⟨unexposed, -, hds⟩ := Except.bind_eq_ok.mp h
  cases hds
  intro d hd
  obtain ⟨u, -, rfl⟩ := List.mem_map.mp hd
  exact Severity.noConfusion

theorem DeclGraph.severity_of_mem_aliasClashes {g : DeclGraph} {ids : List DeclId}
    {ds : List Diagnostic} (h : g.aliasClashes ids = .ok ds) : ∀ d ∈ ds, d.severity ≠ .error := by
  obtain ⟨named, -, hds⟩ := Except.bind_eq_ok.mp h
  cases hds
  intro d hd
  obtain ⟨second, -, hclash⟩ := List.mem_filterMap.mp hd
  split at hclash
  · split at hclash
    · cases hclash
    · rw [← Option.some.inj hclash]
      exact Severity.noConfusion
  · cases hclash

/-- A check is made, and finds no errors. -/
theorem Check.exists_diagnostics {s : Generation} (hg : s.graph.Closed) : ∀ check : Check,
    ∃ ds, check.diagnostics s = .ok ds ∧ ∀ d ∈ ds, d.severity ≠ .error
  | unexposedDependency => by
    obtain ⟨ds, hds⟩ := hg.exists_unexposedDiagnostics s.exported
    exact ⟨ds, hds, DeclGraph.severity_of_mem_unexposedDiagnostics hds⟩
  | duplicateAlias => by
    obtain ⟨ds, hds⟩ := DeclGraph.exists_aliasClashes (g := s.graph) s.exported
    exact ⟨ds, hds, DeclGraph.severity_of_mem_aliasClashes hds⟩
  | nameCollision => by
    refine ⟨_, rfl, fun d hd => ?_⟩
    obtain ⟨c, -, rfl⟩ := List.mem_map.mp hd
    exact Severity.noConfusion

namespace Generation

open Generating

variable {g : DeclGraph} {options : ModuleOptions} {rules : List PolicyRule} {s : Generation}
  {c : Candidates} {o : EmissionOrder}

/-- No diagnostic so far is an error. -/
def IsClean (s : Generation) : Prop := ∀ d ∈ s.diagnostics, d.severity ≠ .error

theorem IsClean.report {ds : List Diagnostic} (hs : s.IsClean)
    (hds : ∀ d ∈ ds, d.severity ≠ .error) : (s.report ds).IsClean := by
  intro d hd
  rcases List.mem_append.mp hd with hd | hd
  · exact hs d hd
  · exact hds d hd

theorem IsClean.has_error (hs : s.IsClean) : s.has .error = false := by
  unfold has
  rw [List.any_eq_false]
  intro d hd
  rw [beq_iff_eq]
  exact hs d hd

/-! ### Stages that succeed -/

/-- What has been gathered when the candidates are in order. -/
def ordered (g : DeclGraph) (options : ModuleOptions) (c : Candidates) (o : EmissionOrder) :
    Generation where
  graph := g
  options := options
  verdicts := c.judged.reverse
  candidates := c.declarations
  order? := some o
  diagnostics := c.diagnostics g ++
    o.backEdges.map fun (cls, dependency) => backEdgeDiagnostic g cls dependency

theorem isClean_ordered (g : DeclGraph) (options : ModuleOptions) (c : Candidates)
    (o : EmissionOrder) : (ordered g options c o).IsClean := by
  intro d hd
  rcases List.mem_append.mp hd with hd | hd
  · exact Candidates.severity_ne_error d hd
  · obtain ⟨p, -, rfl⟩ := List.mem_map.mp hd
    exact Severity.noConfusion

/-- The candidates are selected and put in order. -/
theorem run_prepare_order (hc : g.candidates options = .ok c)
    (ho : g.order c.declarations = .ok o) :
    ∃ s₁, prepare.run.run { graph := g, options } = (.ok (), s₁) ∧
      order.run.run s₁ = (.ok (), ordered g options c o) := by
  refine ⟨_, prepare_eq_ok.mpr ⟨c, hc, rfl⟩, order_eq_ok.mpr ⟨o, ho, ?_⟩⟩
  unfold ordered report
  rw [List.append_nil]
  rfl

/-- The checks are made, and the generation goes on if nothing was an error. -/
theorem exists_diagnose (hg : s.graph.Closed) (hs : s.IsClean) (checks : List Check) :
    ∃ s', (diagnose checks).run.run s = (.ok (), s') := by
  obtain ⟨found, hfound⟩ : ∃ found, checks.mapM (·.diagnostics s) = .ok found :=
    Except.exists_mapM fun check _ => (Check.exists_diagnostics hg check).imp fun _ h => h.1
  have hclean : (s.report found.flatten).IsClean := by
    refine hs.report fun d hd => ?_
    obtain ⟨ds, hds, hd⟩ := List.mem_flatten.mp hd
    obtain ⟨check, -, hcheck⟩ := Except.exists_of_mem_mapM hfound hds
    obtain ⟨ds', hds', hwarns⟩ := Check.exists_diagnostics hg check
    obtain rfl : ds = ds' := Except.ok.inj (hcheck.symm.trans hds')
    exact hwarns d hd
  refine ⟨s.report found.flatten, ?_⟩
  unfold diagnose
  refine run_bind_eq_ok.mpr ⟨s, s, rfl, ?_⟩
  refine run_bind_eq_ok.mpr ⟨found, s, run_known_eq_ok.mpr ⟨hfound, rfl⟩, ?_⟩
  refine run_bind_eq_ok.mpr ⟨⟨⟩, s.report found.flatten, rfl, ?_⟩
  rw [if_neg (by rw [hclean.has_error]; exact Bool.false_ne_true)]
  rfl

/-! ### Whole generations -/

section

variable (hc : g.candidates options = .ok c) (ho : g.order c.declarations = .ok o)

include hc ho

/-- A generation whose declarations are bound is finished. -/
theorem finish_of_bind_ok {b : Binder} (hg : g.Closed)
    (hb : ({ graph := g, options, verdicts := c.judged.reverse, rules } : BindingSetup).bind
      o.declarations = .ok b) (hclean : ∀ d ∈ b.diagnostics, d.severity ≠ .error) :
    ∃ s, finish g options rules = .ok s := by
  obtain ⟨s₁, hprepare, horder⟩ := run_prepare_order hc ho
  have hcreate := run_create (s := ordered g options c o) rules rfl
  dsimp only [ordered] at hcreate
  rw [hb] at hcreate
  have hcreated := (isClean_ordered g options c o).report hclean
  obtain ⟨s, hdiagnose⟩ := exists_diagnose (s := { ordered g options c o with
      exported := b.exported
      collisions := b.mangler.collisions
      tree? := some b.tree }.report b.diagnostics) hg hcreated Check.all
  exact ⟨s, finish_eq_ok.mpr ⟨s₁, _, _, hprepare, horder, hcreate, hdiagnose⟩⟩

/-- A generation whose declarations are not bound fails for the reason that their binding has. -/
theorem finish_of_bind_error {e : BindError}
    (hb : ({ graph := g, options, verdicts := c.judged.reverse, rules } : BindingSetup).bind
      o.declarations = .error e) : finish g options rules = .error (.binding e) := by
  obtain ⟨s₁, hprepare, horder⟩ := run_prepare_order hc ho
  have hcreate := run_create (s := ordered g options c o) rules rfl
  dsimp only [ordered] at hcreate
  rw [hb] at hcreate
  exact finish_of_create_error hprepare horder hcreate

end

/-- A generation where no function has transformers is finished. -/
theorem exists_finish (hg : g.Closed) (hplain : ∀ id ∈ g.ids, (g.config id).transformers = []) :
    ∃ s, finish g options rules = .ok s := by
  obtain ⟨c, hc, hexist⟩ := hg.exists_candidates options
  obtain ⟨o, ho⟩ := DeclGraph.exists_order hexist
  have hsafe := BindingSetup.bind_safe
    (s := { graph := g, options, verdicts := c.judged.reverse, rules }) hg
    fun id hid => hexist id ((DeclGraph.mem_order ho).mp hid)
  split at hsafe
  · next b hb => exact finish_of_bind_ok hc ho hg hb hsafe
  · obtain ⟨err, -, id, f, hf, -, hsome, -⟩ := hsafe
    exact absurd (hplain id (List.mem_range.mpr (DeclGraph.lt_size_of_callable? hf))) hsome

/-- **A generation fails for the transformers of some function only.**  The candidates of a graph
whose ids exist can be put in order, and their binding misses no declaration and makes no edit that
the tree refuses; the transformers look nothing up that is out of range; and what fails is the
application of transformers to a function that has some. -/
theorem finish_fails_only_transforming (hg : g.Closed) (options : ModuleOptions)
    (rules : List PolicyRule) :
    (∃ c o, g.candidates options = .ok c ∧ g.order c.declarations = .ok o ∧
      ∀ e, ({ graph := g, options, verdicts := c.judged.reverse, rules } : BindingSetup).bind
        o.declarations = .error e → ∃ err, e = .transform err ∧ g.TransformersFail err) ∧
    (∀ id f, g.callable? id = some f →
      Transformation.EditsInRange (g.fullName id) f (g.config id).transformers) ∧
    ∀ e, finish g options rules = .error e →
      ∃ err, e = .binding (.transform err) ∧ g.TransformersFail err := by
  obtain ⟨c, hc, hexist⟩ := hg.exists_candidates options
  obtain ⟨o, ho⟩ := DeclGraph.exists_order hexist
  have hids : ∀ id ∈ o.declarations, id < g.size :=
    fun id hid => hexist id ((DeclGraph.mem_order ho).mp hid)
  have hsafe := BindingSetup.bind_safe
    (s := { graph := g, options, verdicts := c.judged.reverse, rules }) hg hids
  refine ⟨⟨c, o, hc, ho, fun e he => ?_⟩, fun id f _ => Transformation.editsInRange _ _ _,
    fun e he => ?_⟩
  · rw [he] at hsafe
    exact hsafe
  · split at hsafe
    · next b hb =>
      obtain ⟨s, hs⟩ := finish_of_bind_ok hc ho hg hb hsafe
      rw [hs] at he
      cases he
    · next bindError hb =>
      obtain ⟨err, rfl, hfail⟩ := hsafe
      rw [finish_of_bind_error hc ho hb] at he
      cases he
      exact ⟨err, rfl, hfail⟩

/-- A function with one parameter, the second of which it is asked to return. -/
def getSecond : DeclGraph :=
  Samples.getValue.modify 1 fun d => { d with config.transformers := [⟨.output, 2⟩] }

/-- It is refused, as there is no second parameter. -/
theorem finish_fails_transforming_getSecond :
    getSecond.Closed ∧ finish getSecond {} =
        .error (.binding (.transform (.outOfRange "::getValue" 2 1))) ∧
      getSecond.TransformersFail (.outOfRange "::getValue" 2 1) := by
  have hclosed : getSecond.Closed := by decide
  have hfails : finish getSecond {} =
      .error (.binding (.transform (.outOfRange "::getValue" 2 1))) := by
    have hrun : (run getSecond {}).1 =
        .error (.binding (.transform (.outOfRange "::getValue" 2 1))) := by decide +kernel
    unfold finish
    split
    · next h => rw [h] at hrun; cases hrun
    · next h => rw [h] at hrun; cases hrun; rfl
  obtain ⟨-, -, honly⟩ := finish_fails_only_transforming hclosed {} PolicyRule.chain
  obtain ⟨err, herr, hfail⟩ := honly _ hfails
  cases herr
  exact ⟨hclosed, hfails, hfail⟩

end Generation

end Bindery
