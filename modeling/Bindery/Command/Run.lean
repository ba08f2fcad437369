import Bindery.Command.Arguments
import Bindery.Command.Generate
import Bindery.Manifest.File

/-!
# The program

## Main definitions

* `Outcome` — what the program leaves behind, besides files: lines and an exit code.
* `Request.run` — does what the user asks for.
* `runProgram` — the whole program, from the arguments to the outcome.
-/

namespace Bindery

/-- What the program leaves behind besides files. -/
structure Outcome where
  exitCode : Nat := 0
  lines : List OutputLine := []
  deriving DecidableEq, Repr, Inhabited

namespace Outcome

/-- The outcome of a failure, told by a message and its causes. -/
def failure (exitCode : Nat) (message : String) (causes : List String := []) : Outcome where
  exitCode
  lines := .ofError message :: causes.map fun cause => .problem ("  " ++ cause)

/-- The outcome of wrong arguments. -/
def ofUsageError (e : UsageError) : Outcome := failure 2 e.message

/-- The outcome of an error about the manifest. -/
def ofManifestError (e : ManifestError) : Outcome := failure 1 e.message e.help?.toList

/-- The outcome of an error about a module with the given declarations.  A declaration that does not
exist is a fault of the tool that has written the declarations. -/
def ofCommandError (g : DeclGraph) (e : CommandError) : Outcome :=
  let exitCode := if e.missing?.isSome then 101 else 1
  match e.chain g with
  | [] => { exitCode }
  | message :: causes => failure exitCode message causes

/-- The outcome of a check: a module with errors is a failure. -/
def ofCheck (r : CheckReport) : Outcome where
  exitCode := if r.isValid then 0 else 1
  lines := r.lines

end Outcome

/-- The name of the program with its version. -/
def versionText : String := "cxxbind 0.5.0"

/-- The ways to call the program. -/
def usageText : String :=
  "\n".intercalate
    ["Generate Boost.Python bindings from C++ declarations", "",
      "Usage: cxxbind [-v | -q] <COMMAND>", "",
      "  generate [-c FILE] [-o FILE] [--dry-run]",
      "  check [-c FILE]",
      "  completions <SHELL>"]

section

variable {m : Type → Type} [Monad m] [FileAccess m]

/-- Goes on with the project of a manifest, unless it cannot be read. -/
def withProject (config : String)
    (next : ManifestFile → DeclGraph → ModuleOptions → m Outcome) : m Outcome := do
  match ← ManifestFile.read config with
  | .error e => return .ofManifestError e
  | .ok file =>
    match ← file.readProject with
    | .error e => return .ofManifestError e
    | .ok (g, options) => next file g options

/-- Generates the module of a manifest. -/
def runGenerate (config : String) (output : Option String) (dryRun : Bool) : m Outcome :=
  withProject config fun file g options => do
    match ← (generateModule g options (output.getD file.outputPath) dryRun).run with
    | .ok report => return { lines := report.lines }
    | .error e => return .ofCommandError g e

/-- Checks the module of a manifest. -/
def runCheck (config : String) : m Outcome :=
  withProject config fun _ g options =>
    match checkModule g options config with
    | .ok report => return .ofCheck report
    | .error e => return .ofCommandError g e

/-- Does what the user asks for. -/
def Request.run : Request → m Outcome
  | generate config output dryRun => runGenerate config output dryRun
  | check config => runCheck config
  | completions shell => return { lines := [.result shell.completionScript] }
  | help => return { lines := [.result usageText] }
  | version => return { lines := [.result versionText] }

/-- The whole program. -/
def runProgram (arguments : List String) : m Outcome :=
  match Request.ofArgs arguments with
  | .ok request => request.run
  | .error e => return .ofUsageError e

end

end Bindery
