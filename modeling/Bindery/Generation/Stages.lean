import Bindery.Generation.Checks

/-!
# The stages of a generation

A generation selects the candidates, orders them, binds them, and checks the result.  Steps of the
user may follow, and observers may look at the generation, and change or stop it, around each step.

## Main definitions

* `Stage`, `Stage.run` — the four stages.
* `Step` — a stage or a step of the user.
* `Observer` — what happens around a step.
* `Generation.run` — a whole generation.
* `Generation.summary?` — what a stage has left behind, in one line.
-/

namespace Bindery

/-- The stages of a generation. -/
inductive Stage
  | prepare
  | order
  | create
  | diagnose
  deriving DecidableEq, Repr, Inhabited

namespace Stage

/-- The stages in their order. -/
def all : List Stage := [prepare, order, create, diagnose]

/-- The name of a stage. -/
def name : Stage → String
  | prepare => "prepare"
  | order => "order"
  | create => "create"
  | diagnose => "diagnose"

/-- The stage of the given name. -/
def ofName? (s : String) : Option Stage := all.find? (·.name == s)

end Stage

/-- The message about a cycle of dependencies. -/
def backEdgeDiagnostic (g : DeclGraph) (cls dependency : DeclId) : Diagnostic where
  severity := .info
  phase := "order"
  message := s!"circular dependency between {g.fullName cls} and {g.fullName dependency}; " ++
    "emitted in first-encounter order"
  location := some (g.fullName cls)

namespace Generation

/-- What the graph has to provide. -/
def known {α : Type} (v : Except MissingDecl α) : Generating α :=
  match v with
  | .ok a => return a
  | .error m => throw (.missing m)

/-- Selects the candidates. -/
def prepare : Generating Unit := do
  let s ← get
  let c ← known (s.graph.candidates s.options)
  set ({ s with
    candidates := s.candidates ++ c.declarations
    verdicts := c.judged.reverse ++ s.verdicts }.report (c.diagnostics s.graph))

/-- Orders the candidates. -/
def order : Generating Unit := do
  let s ← get
  let o ← known (s.graph.order s.candidates)
  set ({ s with order? := some o }.report
    (o.backEdges.map fun (cls, dependency) => backEdgeDiagnostic s.graph cls dependency))

/-- Binds the candidates. -/
def create (rules : List PolicyRule) : Generating Unit := do
  let s ← get
  let some o := s.order? | throw .noOrder
  let setup : BindingSetup := {
    graph := s.graph
    options := s.options
    verdicts := s.verdicts
    rules }
  match setup.bind o.declarations with
  | .error e => throw (.binding e)
  | .ok b =>
    set ({ s with
      exported := b.exported
      collisions := b.mangler.collisions
      tree? := some b.tree }.report b.diagnostics)

/-- Runs checks.  A generation with diagnostics that are errors fails. -/
def diagnose (checks : List Check) : Generating Unit := do
  let s ← get
  let found ← known (checks.mapM (·.diagnostics s))
  let s := s.report found.flatten
  set s
  if s.has .error then throw (.failed (s.count .error))

end Generation

/-- Runs a stage; `rules` are those for call policies. -/
def Stage.run (rules : List PolicyRule) : Stage → Generating Unit
  | prepare => Generation.prepare
  | order => Generation.order
  | create => Generation.create rules
  | diagnose => Generation.diagnose Check.all

/-- A stage or a step of the user. -/
structure Step where
  name : String
  run : Generating Unit

/-- What happens in front of and behind each step, given its name. -/
structure Observer where
  before : String → Generating Unit := fun _ => return
  after : String → Generating Unit := fun _ => return

namespace Generation

/-- Runs a step among observers. -/
def runStep (observers : List Observer) (step : Step) : Generating Unit := do
  observers.forM (·.before step.name)
  step.run
  observers.forM (·.after step.name)

/-- The stages as steps. -/
def stages (rules : List PolicyRule) : List Step := Stage.all.map fun s => ⟨s.name, s.run rules⟩

/-- Runs all stages and then the steps of the user. -/
def runAll (rules : List PolicyRule) (observers : List Observer) (extra : List Step) :
    Generating Unit :=
  (stages rules ++ extra).forM (runStep observers)

/-- A whole generation: what it has gathered, and the failure if it stopped. -/
def run (g : DeclGraph) (options : ModuleOptions) (rules : List PolicyRule := PolicyRule.chain)
    (observers : List Observer := []) (extra : List Step := []) :
    Except GenerationError Unit × Generation :=
  (runAll rules observers extra).run.run { graph := g, options }

/-- The finished generation of a module. -/
def finish (g : DeclGraph) (options : ModuleOptions) (rules : List PolicyRule := PolicyRule.chain) :
    Except GenerationError Generation :=
  match run g options rules with
  | (.ok (), s) => .ok s
  | (.error e, _) => .error e

/-- What the stage of the given name has left behind, in one line. -/
def summary? (s : Generation) (name : String) : Option String :=
  match Stage.ofName? name with
  | some .prepare =>
    let reported := (s.diagnostics.filter (·.phase == "prepare")).length
    some s!"candidates: {s.candidates.length}, not exportable: {reported}"
  | some .order =>
    s.order?.map fun o =>
      s!"ordered: {o.declarations.length}, dependency cycles: {o.backEdges.length}"
  | some .create =>
    let nodes := (s.tree?.map CodeTree.size).getD 0
    some s!"exported: {s.exported.length}, tree nodes: {nodes}"
  | some .diagnose =>
    some s!"errors: {s.count Severity.error}, warnings: {s.count Severity.warning}"
  | none => none

end Generation

end Bindery
