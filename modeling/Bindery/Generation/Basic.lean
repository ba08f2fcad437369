import Bindery.Analysis.Order
import Bindery.Binding.Module
import Bindery.Code.Render
import Bindery.Generation.Candidates
import Bindery.SupportHeader

/-!
# Generation of a module

A generation starts from a declaration graph and gathers, step by step, what the module is made
of.

## Main definitions

* `Generation` — what has been gathered so far.
* `GenerationError` — why a generation stops; `GenerationError.chain` is the failure in words.
* `Generating` — a step, which keeps what it has gathered when it fails.
* `Generation.text`, `Generation.files` — the finished module.
-/

namespace Bindery

/-- What a generation has gathered so far. -/
structure Generation where
  graph : DeclGraph
  options : ModuleOptions
  verdicts : Verdicts := []
  /-- The declarations to bind. -/
  candidates : List DeclId := []
  /-- The candidates in the order of their registration. -/
  order? : Option EmissionOrder := none
  tree? : Option CodeTree := none
  /-- The declarations bound. -/
  exported : List DeclId := []
  /-- Names that became the same identifier. -/
  collisions : List Text.NameCollision := []
  diagnostics : List Diagnostic := []
  /-- What observers have noted. -/
  notes : List String := []
  deriving Repr, Inhabited

/-- Why a generation stops. -/
inductive GenerationError
  | missing (decl : MissingDecl)
  /-- The candidates have not been ordered yet. -/
  | noOrder
  /-- The tree has not been made yet. -/
  | noTree
  | binding (e : BindError)
  /-- There are diagnostics that are errors. -/
  | failed (errors : Nat)
  /-- An observer or a step of the user has failed. -/
  | stopped (message : String)
  deriving DecidableEq, Repr

/-- The failure of a binding in words. -/
def BindError.message (g : DeclGraph) : BindError → String
  | missing d => s!"declaration {d.id} does not exist"
  | tree e => e.message
  | transform e => e.message g

namespace GenerationError

/-- A failure in words, followed by its causes. -/
def chain (g : DeclGraph) : GenerationError → List String
  | missing d => [(BindError.missing d).message g]
  | noOrder => ["emission order not set - did OrderPhase run?"]
  | noTree => ["code tree not set - did CreatePhase run?"]
  | binding e => ["failed to build the code-creator tree", e.message g]
  | failed n => [s!"Generation failed with {n} error(s)"]
  | stopped message => [message]

/-- The declaration that was asked for and does not exist. -/
def missing? : GenerationError → Option MissingDecl
  | missing d | binding (.missing d) => some d
  | _ => none

end GenerationError

/-- A step of a generation. -/
abbrev Generating (α : Type) := ExceptT GenerationError (StateM Generation) α

namespace Generation

/-! ### Diagnostics -/

/-- The number of diagnostics of a severity. -/
def count (s : Generation) (severity : Severity) : Nat :=
  (s.diagnostics.filter (·.severity == severity)).length

/-- There are diagnostics of a severity. -/
def has (s : Generation) (severity : Severity) : Bool :=
  s.diagnostics.any (·.severity == severity)

/-- Adds diagnostics behind the others. -/
def report (s : Generation) (ds : List Diagnostic) : Generation :=
  { s with diagnostics := s.diagnostics ++ ds }

/-! ### The finished module -/

/-- The tree of the module. -/
def tree (s : Generation) : Except GenerationError CodeTree :=
  match s.tree? with
  | some t => .ok t
  | none => .error .noTree

/-- The text of the module. -/
def text (s : Generation) : Except GenerationError String := do
  return ((← s.tree).render CodeTree.root).1

/-- The headers that the module needs. -/
def requiredHeaders (s : Generation) : Except GenerationError (List String) := do
  return ((← s.tree).requiredHeaders CodeTree.root).toOption.getD []

/-- A file to write. -/
structure File where
  path : String
  content : String
  deriving DecidableEq, Repr, Inhabited

/-- The files of the module: its text, then the support headers that it needs. -/
def files (s : Generation) : Except GenerationError (List File) := do
  let headers ← s.requiredHeaders
  return ⟨s.options.outputFile, ← s.text⟩ ::
    (headers.filterMap SupportHeader.find?).map fun h => ⟨h.fileName, h.code⟩

end Generation

end Bindery
