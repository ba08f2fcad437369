import Bindery.Command.Report
import Bindery.Files.Access
import Bindery.Files.Path

/-!
# Checking and generating modules

Checking a module is generating it without a look at its text.  Generated files are written one
after the other, so that those in front of a failure are there.

## Main definitions

* `CommandError` — why a module cannot be checked or generated.
* `checkModule` — the report about a module.
* `placeFiles` — where the files of a module go.
* `generateModule` — writes or shows the files of a module.
-/

namespace Bindery

/-- Why a module cannot be checked or generated. -/
inductive CommandError
  | generation (e : GenerationError)
  /-- A directory cannot be made. -/
  | createDirectory (path : String) (cause : FileFailure)
  /-- A file cannot be written. -/
  | writeFile (path : String) (cause : FileFailure)
  deriving DecidableEq, Repr

namespace CommandError

/-- The error in words, followed by its causes. -/
def chain (g : DeclGraph) : CommandError → List String
  | generation e => "Generation failed" :: e.chain g
  | createDirectory path cause => [s!"Failed to create {path}", cause.message]
  | writeFile path cause => [s!"Failed to write {path}", cause.message]

/-- The declaration that was asked for and does not exist. -/
def missing? : CommandError → Option MissingDecl
  | generation e => e.missing?
  | _ => none

end CommandError

/-- The report about a module with the given declarations. -/
def checkModule (g : DeclGraph) (options : ModuleOptions) (configPath : String) :
    Except CommandError CheckReport := do
  let s ← (Generation.finish g options).mapError .generation
  return {
    configPath
    summary := ← s.summarize.mapError .generation
    errors := s.paragraphs .error
    warnings := s.paragraphs .warning
    infos := s.paragraphs .info }

/-- Where the files of a module go: its text to the given path, the support headers beside it. -/
def placeFiles (output : String) : List Generation.File → List Generation.File
  | [] => []
  | source :: headers =>
    let dir := (Path.parent? output).getD ""
    { source with path := output } ::
      headers.map fun h => { h with path := Path.join dir h.path }

section

variable {m : Type → Type} [Monad m] [FileAccess m]

/-- Writes a file, in a directory that is made if needed. -/
def writeGenerated (file : Generation.File) : ExceptT CommandError m Unit := do
  let dir := (Path.parent? file.path).getD ""
  if !dir.isEmpty then
    ExceptT.mk do return (← FileAccess.createDirs dir).mapError (.createDirectory dir)
  ExceptT.mk do
    return (← FileAccess.writeFile file.path file.content).mapError (.writeFile file.path)

/-- Generates a module: writes its files, or shows them in a dry run. -/
def generateModule (g : DeclGraph) (options : ModuleOptions) (output : String) (dryRun : Bool) :
    ExceptT CommandError m GenerateReport := do
  let s ← ExceptT.mk (pure ((Generation.finish g options).mapError .generation))
  let files ← ExceptT.mk (pure (s.files.mapError .generation))
  let files := placeFiles output files
  if !dryRun then files.forM writeGenerated
  let summary ← ExceptT.mk (pure (s.summarize.mapError .generation))
  return {
    summary
    warnings := s.paragraphs .warning
    result := if dryRun then .preview files else .written (files.map (·.path)) }

end

end Bindery
