import Bindery.Manifest.Codec
import Bindery.Manifest.Error
import Bindery.Text.Identifier

/-!
# Validation of manifests

## Main definitions

* `isPythonName` — names that can be spelled in Python.
* `ManifestPlace` — the part of a manifest that is validated.
* `Manifest.validate` — what is wrong with a manifest.
* `Manifest.ofText` — the valid manifest that a text holds.
-/

namespace Bindery

/-- The words of Python that cannot be names. -/
def pythonWords : List String :=
  ["False", "None", "True", "and", "as", "assert", "async", "await", "break", "class", "continue",
   "def", "del", "elif", "else", "except", "finally", "for", "from", "global", "if", "import", "in",
   "is", "lambda", "nonlocal", "not", "or", "pass", "raise", "return", "try", "while", "with",
   "yield"]

/-- A name that can be spelled in Python. -/
def isPythonName (name : String) : Bool :=
  Text.isIdentifier name && !pythonWords.contains name

/-- The part of a manifest that is validated. -/
structure ManifestPlace where
  /-- The text of the manifest. -/
  source : String
  /-- The keys that lead to the part. -/
  path : List String := []
  deriving DecidableEq, Repr, Inhabited

namespace ManifestPlace

/-- The part under a key. -/
def push (p : ManifestPlace) (key : String) : ManifestPlace := { p with path := p.path ++ [key] }

/-- The path in words. -/
def pathText (p : ManifestPlace) : String := ".".intercalate p.path

/-- The role of a name, with the part in which it stands. -/
def role (p : ManifestPlace) (kind : String) : String :=
  if p.path.isEmpty then kind else s!"{kind} in '{p.pathText}'"

/-- Checks that a name can be spelled in Python. -/
def checkName (p : ManifestPlace) (kind name : String) : Except ManifestError Unit :=
  if isPythonName name then .ok ()
  else .error (.invalidName name (p.role kind) (Span.ofValue? p.source name))

end ManifestPlace

/-- Checks the options of a module. -/
def ModuleOptions.validate (o : ModuleOptions) (source : String) : Except ManifestError Unit := do
  let place : ManifestPlace := { source }
  if o.name.isEmpty then
    throw (.invalid "[module] requires a non-empty `name`" (Span.ofOption? source "name"))
  place.checkName "module name" o.name
  if o.indexingSuiteVersion ≠ 1 ∧ o.indexingSuiteVersion ≠ 2 then
    throw (.unsupportedSuite o.indexingSuiteVersion
      (Span.ofOption? source "indexing_suite_version"))
  if o.maxArity = 0 then
    throw (.invalid "max_arity must be at least 1" (Span.ofOption? source "max_arity"))
  if !o.bindingNamespace.isEmpty then place.checkName "namespace alias" o.bindingNamespace

/-- Checks the decisions about the declarations of one name. -/
def DeclOverride.validate (o : DeclOverride) (source name : String) :
    Except ManifestError Unit := do
  let place := ((ManifestPlace.mk source []).push "decls").push name
  if (DeclGraph.withoutRoot name).isEmpty then
    throw (.invalid "override tables must name a declaration" (Span.ofKey? source name))
  if let some pythonName := o.pythonName then place.checkName "alias" pythonName
  (NameMap.values (o.valueAliases.getD [])).forM (place.checkName "enum value alias")
  (o.transformers.getD []).forM fun t => do
    if t.arg = 0 then
      throw (.invalid s!"{t.text} in '{name}': argument indices start at 1"
        (Span.ofKey? source name))

namespace Manifest

/-- Checks a manifest against its text. -/
def validate (m : Manifest) (source : String) : Except ManifestError Unit := do
  m.module.validate source
  m.decls.forM fun (name, o) => o.validate source name

/-- The valid manifest that a text holds. -/
def ofText (source : String) : Except ManifestError Manifest := do
  match read? source with
  | none => throw .parse
  | some m =>
    m.validate source
    return m

end Manifest

end Bindery
