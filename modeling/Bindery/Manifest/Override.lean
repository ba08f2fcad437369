import Bindery.Decl.Build
import Bindery.Manifest.Validation

/-!
# Applying the decisions of a manifest

A name stands for all declarations that have it, so that one table decides about all overloads of a
function.  The tables are applied in ascending order of their names.

## Main definitions

* `DeclOverride.applyTo` — the decisions about a declaration after more of them.
* `Manifest.applyTo` — a graph after the decisions of a manifest.
-/

namespace Bindery

/-- The decisions about a declaration, with those of a manifest on top.  Aliases of enumerators and
texts are added to those that are there; everything else takes the place of what was there. -/
def DeclOverride.applyTo (o : DeclOverride) (c : ExportConfig) : ExportConfig where
  ignore := o.ignore.getD c.ignore
  pythonName := o.pythonName <|> c.pythonName
  callPolicy := o.callPolicy <|> c.callPolicy
  createWithSignature := o.createWithSignature.getD c.createWithSignature
  alwaysExposeUsingScope := o.alwaysExposeUsingScope.getD c.alwaysExposeUsingScope
  useKeywords := o.useKeywords.getD c.useKeywords
  useDefaultArguments := o.useDefaultArguments.getD c.useDefaultArguments
  documentation := o.documentation <|> c.documentation
  transformers := o.transformers.getD c.transformers
  exportValues := o.exportValues.getD c.exportValues
  valueAliases :=
    (o.valueAliases.getD []).foldl (fun m a => NameMap.insert a.1 a.2 m) c.valueAliases
  noncopyable := o.noncopyable <|> c.noncopyable
  code := c.code ++ o.code.getD []
  wrapperCode := c.wrapperCode ++ o.wrapperCode.getD []

/-- Applies decisions to one declaration. -/
def DeclGraph.applyOverride (g : DeclGraph) (o : DeclOverride) (id : DeclId) : DeclGraph :=
  g.modify id fun d => { d with config := o.applyTo d.config }

/-- Applies decisions by name, one table after the other.  Returns the number of declarations
touched, or the first name that no declaration has; what was applied before stays applied. -/
def DeclGraph.applyOverrides (g : DeclGraph) (source : String) (touched : Nat) :
    List (String × DeclOverride) → Except ManifestError Nat × DeclGraph
  | [] => (.ok touched, g)
  | (name, o) :: rest =>
    match g.findAll name with
    | [] => (.error (.unknownDecl name (Span.ofKey? source name)), g)
    | ids => (ids.foldl (·.applyOverride o ·) g).applyOverrides source (touched + ids.length) rest

/-- Applies the decisions of a manifest to a graph.  `source` is the text of the manifest. -/
def Manifest.applyTo (m : Manifest) (source : String) (g : DeclGraph) :
    Except ManifestError Nat × DeclGraph :=
  g.applyOverrides source 0 m.decls

end Bindery
