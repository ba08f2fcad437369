import Bindery.Files.Path
import Bindery.Manifest.Override

/-!
# Manifest files

A manifest as it stands in a file, with the files that it names.  Their paths start at the directory
of the manifest.

## Main definitions

* `ManifestFile` — a file with the manifest that it holds.
* `ManifestFile.read`, `ManifestFile.save`, `ManifestFile.withContent` — reading, writing, editing.
* `ManifestFile.readGraph`, `ManifestFile.readProject` — the declarations, without and with the
  decisions of the manifest.
-/

namespace Bindery

/-- A file that holds a manifest. -/
structure ManifestFile where
  path : String
  content : String
  /-- What the content says. -/
  manifest : Manifest
  deriving Repr, Inhabited

namespace ManifestFile

/-- The directory of the file. -/
def dir (f : ManifestFile) : String := Path.dir f.path

/-- The path of the module's source text. -/
def outputPath (f : ManifestFile) : String := Path.join f.dir f.manifest.module.outputFile

/-- The file with the given content. -/
def ofContent (path content : String) : Except ManifestError ManifestFile := do
  return { path, content, manifest := ← Manifest.ofText content }

/-- The file with another content. -/
def withContent (f : ManifestFile) (content : String) : Except ManifestError ManifestFile :=
  ofContent f.path content

/-- The declarations with the decisions of the manifest. -/
def configure (f : ManifestFile) (g : DeclGraph) :
    Except ManifestError (DeclGraph × ModuleOptions) :=
  match f.manifest.applyTo f.content g with
  | (.ok _, g) => .ok (g, f.manifest.module)
  | (.error e, _) => .error e

variable {m : Type → Type} [Monad m] [FileAccess m]

/-- The text of a file. -/
def readText (path : String) : m (Except ManifestError String) := do
  return (← FileAccess.readFile path).mapError (.file path)

/-- Reads a manifest file. -/
def read (path : String) : m (Except ManifestError ManifestFile) := do
  return (← readText path).bind (ofContent path)

/-- Writes the content to the file. -/
def save (f : ManifestFile) : m (Except ManifestError Unit) := do
  return (← FileAccess.writeFile f.path f.content).mapError (.file f.path)

/-- Reads the declarations from the file that the manifest names. -/
def readGraph (f : ManifestFile) : m (Except ManifestError DeclGraph) :=
  match f.manifest.module.declarations with
  | none => return .error .noDeclarations
  | some name => do
    let path := Path.join f.dir name
    return (← readText path).bind fun text => (DeclGraph.ofText text).mapError (.graph path)

/-- Reads the declarations and applies the decisions of the manifest to them. -/
def readProject (f : ManifestFile) : m (Except ManifestError (DeclGraph × ModuleOptions)) := do
  return (← f.readGraph).bind f.configure

end ManifestFile

end Bindery
