import Bindery.Decl.Codec
import Bindery.Files.Access
import Bindery.Manifest.Span

/-!
# Errors about manifests

## Main definitions

* `ManifestError` — what is wrong with a manifest or with the files it names.
* `ManifestError.message`, `ManifestError.code?`, `ManifestError.help?`, `ManifestError.label?` —
  what the user is told.
-/

namespace Bindery

/-- What is wrong with a manifest or with the files it names. -/
inductive ManifestError
  /-- A file cannot be read or written. -/
  | file (path : String) (cause : FileFailure)
  /-- The text is no manifest. -/
  | parse
  /-- A value is of no use. -/
  | invalid (message : String) (span : Option Span)
  /-- A name cannot be spelled in Python; `role` says what it is the name of. -/
  | invalidName (name role : String) (span : Option Span)
  | unsupportedSuite (version : Nat) (span : Option Span)
  /-- A table decides about a declaration that does not exist. -/
  | unknownDecl (name : String) (span : Option Span)
  /-- The manifest does not name the file with the declarations. -/
  | noDeclarations
  /-- The file with the declarations is of no use. -/
  | graph (path : String) (cause : GraphTextError)
  deriving DecidableEq, Repr

namespace ManifestError

/-- The error in words. -/
def message : ManifestError → String
  | file path _ => s!"failed to read '{path}'"
  | parse => "failed to parse cxxbind.toml"
  | invalid text _ => text
  | invalidName name role _ => s!"invalid {role} '{name}'"
  | unsupportedSuite version _ => s!"unsupported indexing suite version {version}"
  | unknownDecl name _ => s!"no declaration named '{name}'"
  | noDeclarations => "[module] has no `declarations` file"
  | graph path _ => s!"failed to load declarations from '{path}'"

/-- The name under which the error is documented. -/
def code? : ManifestError → Option String
  | file .. => none
  | parse => some "cxxbind::parse_error"
  | invalid .. => some "cxxbind::validation_error"
  | invalidName .. => some "cxxbind::invalid_identifier"
  | unsupportedSuite .. => some "cxxbind::indexing_suite"
  | unknownDecl .. => some "cxxbind::unknown_declaration"
  | noDeclarations => some "cxxbind::missing_declarations"
  | graph .. => some "cxxbind::graph_error"

/-- What the user may do about the error. -/
def help? : ManifestError → Option String
  | file .. => some "run from the directory holding cxxbind.toml or pass --config"
  | parse | invalid .. | graph .. => none
  | invalidName .. => some <|
    "Python names use only letters, numbers, and underscores, " ++
      "starting with a letter or underscore."
  | unsupportedSuite .. => some "valid versions are 1 and 2"
  | unknownDecl .. => some <|
    "override tables are keyed by fully qualified names, e.g. \"::ns::Class::method\""
  | noDeclarations => some "add `declarations = \"<file>.json\"` pointing at the front end's output"

/-- The place that the error is about, with what is wrong there. -/
def label? : ManifestError → Option (Span × String)
  | invalid text span => span.map (·, text)
  | invalidName _ _ span => span.map (·, "not a valid identifier")
  | unsupportedSuite _ span => span.map (·, "unsupported version")
  | unknownDecl _ span => span.map (·, "not found in the declaration graph")
  | _ => none

end ManifestError

end Bindery
