import Bindery.Generation.Stages

/-!
# Summary of a module

## Main definitions

* `ModuleSummary`, `Generation.summarize` — how much a module binds.
-/

namespace Bindery

/-- How much a module binds. -/
structure ModuleSummary where
  module : String
  classes : Nat
  functions : Nat
  /-- The number of wrapper classes. -/
  wrappers : Nat
  deriving DecidableEq, Repr, Inhabited

/-- The summary of a finished module. -/
def Generation.summarize (s : Generation) : Except GenerationError ModuleSummary := do
  let t ← s.tree
  return {
    module := s.options.name
    classes := (s.exported.filter s.graph.isClass).length
    functions := (s.exported.filter fun id => (s.graph.callable? id).isSome).length
    wrappers := (t.findAll CodeTree.root (· matches .wrapper _)).length }

end Bindery
