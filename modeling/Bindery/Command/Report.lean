import Bindery.Generation.Summary

/-!
# Reports

What the user is told about a generation: problems first, then the result.

## Main definitions

* `OutputLine` — a line for the user; `stdoutText` and `stderrText` are the two streams.
* `ModuleSummary.lines` — how much a module binds, in words.
* `CheckReport`, `GenerateReport` — the two reports.
-/

namespace Bindery

/-- A line for the user, which may have line ends in it. -/
inductive OutputLine
  /-- A line of the result, for the standard output. -/
  | result (text : String)
  /-- A line about a problem, for the standard error stream. -/
  | problem (text : String)
  deriving DecidableEq, Repr, Inhabited

namespace OutputLine

/-- The line, if it is one of the result. -/
def result? : OutputLine → Option String
  | result text => some text
  | problem _ => none

/-- The line, if it is one about a problem. -/
def problem? : OutputLine → Option String
  | result _ => none
  | problem text => some text

/-- What is written to the standard output. -/
def stdoutText (lines : List OutputLine) : String :=
  String.join ((lines.filterMap result?).map (· ++ "\n"))

/-- What is written to the standard error stream. -/
def stderrText (lines : List OutputLine) : String :=
  String.join ((lines.filterMap problem?).map (· ++ "\n"))

/-- An empty line. -/
def blank : OutputLine := result ""

/-- A line about an error. -/
def ofError (message : String) : OutputLine := problem ("error: " ++ message)

/-- A line about a warning. -/
def ofWarning (message : String) : OutputLine := problem ("warning: " ++ message)

/-- A line about something to know. -/
def ofInfo (message : String) : OutputLine := result ("info: " ++ message)

/-- A line that divides the output. -/
def divider (label : String) : OutputLine := result s!"── {label} ──"

/-- A number of things. -/
def ofCount (n : Nat) (one many : String) : OutputLine :=
  let word := if n = 1 then one else many
  result s!"    {n} {word}"

end OutputLine

open OutputLine

/-- A diagnostic with the name of the declaration on a line of its own. -/
def Diagnostic.paragraph (d : Diagnostic) : String :=
  d.message ++ match d.location with
    | some l => "\n  --> " ++ l
    | none => ""

/-- The diagnostics of a severity, as paragraphs. -/
def Generation.paragraphs (s : Generation) (severity : Severity) : List String :=
  (s.diagnostics.filter (·.severity == severity)).map Diagnostic.paragraph

/-- How much a module binds, in words. -/
def ModuleSummary.lines (s : ModuleSummary) : List OutputLine :=
  [result s!"  module {s.module}:", ofCount s.classes "class" "classes",
    ofCount s.functions "function" "functions", ofCount s.wrappers "wrapper" "wrappers"]

/-- An empty line, if there is something in front of it. -/
def separator (messages : List String) : List OutputLine :=
  if messages.isEmpty then [] else [blank]

/-- The report about a module that has been checked. -/
structure CheckReport where
  /-- The path of the manifest. -/
  configPath : String
  summary : ModuleSummary
  errors : List String := []
  warnings : List String := []
  infos : List String := []
  deriving DecidableEq, Repr, Inhabited

namespace CheckReport

/-- The module has no errors. -/
def isValid (r : CheckReport) : Bool := r.errors.isEmpty

/-- The report in words.  A module with errors has no summary. -/
def lines (r : CheckReport) : List OutputLine :=
  r.errors.map ofError ++ r.warnings.map ofWarning ++ r.infos.map ofInfo ++
    separator (r.errors ++ r.warnings ++ r.infos) ++
    if r.isValid then result s!"✓ {r.configPath} is valid" :: blank :: r.summary.lines else []

end CheckReport

/-- What has become of the files of a module. -/
inductive GenerateResult
  /-- The files have been written. -/
  | written (paths : List String)
  /-- The files are shown. -/
  | preview (files : List Generation.File)
  deriving DecidableEq, Repr, Inhabited

/-- The report about a module that has been generated. -/
structure GenerateReport where
  summary : ModuleSummary
  warnings : List String := []
  result : GenerateResult
  deriving DecidableEq, Repr, Inhabited

/-- What has become of the files, in words. -/
def GenerateResult.lines (summary : ModuleSummary) : GenerateResult → List OutputLine
  | written paths =>
    summary.lines ++ [blank, OutputLine.result "Generated:"] ++
      paths.map fun path => OutputLine.result ("  + " ++ path)
  | preview files =>
    (files.flatMap fun f => [divider f.path, OutputLine.result f.content]) ++
      [divider "Summary", OutputLine.result s!"{files.length} files would be generated"]

/-- The report in words. -/
def GenerateReport.lines (r : GenerateReport) : List OutputLine :=
  r.warnings.map ofWarning ++ separator r.warnings ++ r.result.lines r.summary

end Bindery
