import Bindery.Command.Shell

/-!
# The command line

Options come in a long form, two dashes and a name, and most of them in a short one, a dash and a
letter.  Short ones may share a dash.  A value stands behind an equals sign, behind the letter, or
in the next argument, where it may not look like an option.

## Main definitions

* `Request` — what the user asks for.
* `UsageError` — what is wrong with the arguments.
* `readOptions` — the options in front of the first other argument.
* `Request.ofArgs` — the request that the arguments make.
-/

namespace Bindery

/-- What the user asks for. -/
inductive Request
  /-- Generate a module; without a path for its text, the manifest says where it goes. -/
  | generate (config : String) (output : Option String) (dryRun : Bool)
  | check (config : String)
  | completions (shell : Shell)
  | help
  | version
  deriving DecidableEq, Repr, Inhabited

/-- What is wrong with the arguments. -/
inductive UsageError
  | noCommand
  | unknown (argument : String)
  | missingValue (option : String)
  | unexpectedValue (option : String)
  | repeated (option : String)
  | conflict (option other : String)
  | noShell
  | unknownShell (name : String)
  deriving DecidableEq, Repr, Inhabited

/-- The error in words. -/
def UsageError.message : UsageError → String
  | noCommand => "a command is required"
  | unknown argument => s!"unexpected argument '{argument}' found"
  | missingValue option => s!"a value is required for '{option}' but none was supplied"
  | unexpectedValue option => s!"unexpected value for '{option}' found"
  | repeated option => s!"the argument '{option}' cannot be used multiple times"
  | conflict option other => s!"the argument '{option}' cannot be used with '{other}'"
  | noShell => "the name of a shell is required"
  | unknownShell name => s!"invalid value '{name}' for the name of a shell"

/-- Why the arguments are not read to their end. -/
inductive EarlyEnd
  /-- The user asks for help. -/
  | help
  /-- The user asks for the version. -/
  | version
  | usage (e : UsageError)
  deriving DecidableEq, Repr, Inhabited

/-- What an option does. -/
inductive OptionKind
  /-- It is there or not. -/
  | flag
  /-- It has a value. -/
  | value
  /-- It ends the reading. -/
  | ends (reason : EarlyEnd)
  deriving DecidableEq, Repr, Inhabited

/-- An option that may be given. -/
structure OptionForm where
  name : String
  short : Option Char := none
  kind : OptionKind := .flag
  deriving DecidableEq, Repr, Inhabited

/-- The long form of an option. -/
def OptionForm.text (f : OptionForm) : String := "--" ++ f.name

/-- The options of every command. -/
def commonOptions : List OptionForm :=
  [⟨"verbose", some 'v', .flag⟩, ⟨"quiet", some 'q', .flag⟩, ⟨"help", some 'h', .ends .help⟩]

/-- The options in front of the command. -/
def topOptions : List OptionForm := commonOptions ++ [⟨"version", some 'V', .ends .version⟩]

/-- The options for checking a module. -/
def checkOptions : List OptionForm := commonOptions ++ [⟨"config", some 'c', .value⟩]

/-- The options for generating a module. -/
def generateOptions : List OptionForm :=
  checkOptions ++ [⟨"output", some 'o', .value⟩, ⟨"dry-run", none, .flag⟩]

/-! ### Options given -/

/-- The options given, by name; those without a value have an empty one. -/
abbrev GivenOptions := List (String × String)

namespace GivenOptions

/-- Adds an option, which may be given only once. -/
def add (g : GivenOptions) (f : OptionForm) (value : String) : Except EarlyEnd GivenOptions :=
  if (g.lookup f.name).isSome then .error (.usage (.repeated f.text))
  else .ok (g ++ [(f.name, value)])

/-- Adds an option with a value, which may not be empty. -/
def addValue (g : GivenOptions) (f : OptionForm) (value : String) : Except EarlyEnd GivenOptions :=
  if value.isEmpty then .error (.usage (.missingValue f.text)) else g.add f value

/-- The option is there. -/
def has (g : GivenOptions) (name : String) : Bool := (g.lookup name).isSome

/-- Options that exclude each other are not both there. -/
def checkConflicts (g : GivenOptions) : Except EarlyEnd Unit :=
  if g.has "verbose" && g.has "quiet" then .error (.usage (.conflict "--verbose" "--quiet"))
  else .ok ()

/-- The path of the manifest. -/
def config (g : GivenOptions) : String := (g.lookup "config").getD "cxxbind.toml"

end GivenOptions

/-! ### Reading options -/

/-- The argument looks like an option. -/
def isOptionArgument (argument : String) : Bool :=
  match argument.toList with
  | '-' :: _ :: _ => true
  | _ => false

/-- The options given so far, with the one whose value is the next argument. -/
abbrev OptionState := GivenOptions × Option OptionForm

/-- Reads the letters behind a dash. -/
def readLetters (forms : List OptionForm) (g : GivenOptions) :
    List Char → Except EarlyEnd OptionState
  | [] => .ok (g, none)
  | c :: rest => do
    let some f := forms.find? (·.short == some c) |
      throw (.usage (.unknown ("-" ++ String.singleton c)))
    match f.kind, rest with
    | .ends reason, _ => throw reason
    | .flag, _ => readLetters forms (← g.add f "") rest
    | .value, [] => return (g, some f)
    | .value, '=' :: value | .value, value => return (← g.addValue f (String.ofList value), none)

/-- Reads what stands behind two dashes: a name, and perhaps a value behind an equals sign. -/
def readName (forms : List OptionForm) (g : GivenOptions) (text : List Char) :
    Except EarlyEnd OptionState := do
  let name := String.ofList (text.takeWhile (· != '='))
  let value? := match text.dropWhile (· != '=') with
    | [] => none
    | _ :: value => some (String.ofList value)
  let some f := forms.find? (·.name == name) | throw (.usage (.unknown ("--" ++ name)))
  match f.kind, value? with
  | .value, none => return (g, some f)
  | .value, some value => return (← g.addValue f value, none)
  | _, some _ => throw (.usage (.unexpectedValue f.text))
  | .flag, none => return (← g.add f "", none)
  | .ends reason, none => throw reason

/-- Reads the options in front of the first argument that is none, and returns the rest from that
argument on.  Two dashes alone are no option. -/
def readOptions (forms : List OptionForm) :
    OptionState → List String → Except EarlyEnd (GivenOptions × List String)
  | (g, none), [] => .ok (g, [])
  | (_, some f), [] => .error (.usage (.missingValue f.text))
  | (g, some f), argument :: rest => do
    if isOptionArgument argument then throw (.usage (.missingValue f.text))
    readOptions forms (← g.addValue f argument, none) rest
  | (g, none), argument :: rest =>
    match argument.toList with
    | '-' :: '-' :: [] => .ok (g, argument :: rest)
    | '-' :: '-' :: text => do readOptions forms (← readName forms g text) rest
    | '-' :: c :: letters => do readOptions forms (← readLetters forms g (c :: letters)) rest
    | _ => .ok (g, argument :: rest)

/-! ### Commands -/

/-- There are no more arguments; two dashes may stand at the end. -/
def readEnd : List String → Except EarlyEnd Unit
  | [] | ["--"] => .ok ()
  | "--" :: argument :: _ | argument :: _ => .error (.usage (.unknown argument))

/-- Reads the options of a command without other arguments. -/
def readCommand (forms : List OptionForm) (arguments : List String) :
    Except EarlyEnd GivenOptions := do
  let (g, rest) ← readOptions forms ([], none) arguments
  readEnd rest
  g.checkConflicts
  return g

/-- The shell of the given name. -/
def readShell (name : String) : Except EarlyEnd Shell :=
  match Shell.ofName? name with
  | some shell => .ok shell
  | none => .error (.usage (.unknownShell name))

/-- Reads the arguments of the command for completions: the name of a shell, among options. -/
def readCompletions (arguments : List String) : Except EarlyEnd Request := do
  let (g, rest) ← readOptions commonOptions ([], none) arguments
  match rest with
  | [] | ["--"] => throw (.usage .noShell)
  | "--" :: name :: rest =>
    let shell ← readShell name
    if let argument :: _ := rest then throw (.usage (.unknown argument))
    g.checkConflicts
    return .completions shell
  | name :: rest =>
    let shell ← readShell name
    let (g, rest) ← readOptions commonOptions (g, none) rest
    readEnd rest
    g.checkConflicts
    return .completions shell

/-- Reads the arguments of the command for help: at most the name of a command.  Help is given at
once. -/
def readHelp : List String → EarlyEnd
  | [] => .help
  | [name] => if commandNames.contains name then .help else .usage (.unknown name)
  | _ :: argument :: _ => .usage (.unknown argument)

/-- Reads a command with its arguments. -/
def readRequest : List String → Except EarlyEnd Request
  | [] => .error (.usage .noCommand)
  | "generate" :: arguments => do
    let g ← readCommand generateOptions arguments
    return .generate g.config (g.lookup "output") (g.has "dry-run")
  | "check" :: arguments => do return .check (← readCommand checkOptions arguments).config
  | "completions" :: arguments => readCompletions arguments
  | "help" :: arguments => .error (readHelp arguments)
  | argument :: _ => .error (.usage (.unknown argument))

namespace Request

/-- Reads all arguments.  Options in front of the command are checked last. -/
def read (arguments : List String) : Except EarlyEnd Request := do
  let (g, rest) ← readOptions topOptions ([], none) arguments
  let request ← readRequest rest
  g.checkConflicts
  return request

/-- The request that the arguments make. -/
def ofArgs (arguments : List String) : Except UsageError Request :=
  match read arguments with
  | .ok request => .ok request
  | .error .help => .ok .help
  | .error .version => .ok .version
  | .error (.usage e) => .error e

end Request

end Bindery
