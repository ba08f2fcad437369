/-!
# Completions

The shells offer the commands of the program when the user asks for completions.

## Main definitions

* `Shell` — the shells for which completions are known.
* `Shell.completionScript` — what a shell has to run to know the commands.
-/

namespace Bindery

/-- The shells for which completions are known. -/
inductive Shell
  | bash
  | elvish
  | fish
  | powershell
  | zsh
  deriving DecidableEq, Repr, Inhabited

/-- The names of the commands. -/
def commandNames : List String := ["generate", "check", "completions", "help"]

namespace Shell

/-- All shells. -/
def all : List Shell := [bash, elvish, fish, powershell, zsh]

/-- The name of a shell. -/
def name : Shell → String
  | bash => "bash"
  | elvish => "elvish"
  | fish => "fish"
  | powershell => "powershell"
  | zsh => "zsh"

/-- The shell of the given name. -/
def ofName? (s : String) : Option Shell := all.find? (·.name == s)

/-- What a shell has to run to know the commands. -/
def completionScript (s : Shell) : String :=
  let words := " ".intercalate commandNames
  match s with
  | bash => "complete -W \"" ++ words ++ "\" cxxbind"
  | elvish => "set edit:completion:arg-completer[cxxbind] = \x7b|@args| put " ++ words ++ " \x7d"
  | fish => "complete -c cxxbind -f -a \"" ++ words ++ "\""
  | powershell =>
    "Register-ArgumentCompleter -Native -CommandName cxxbind -ScriptBlock \x7b -split \"" ++
      words ++ "\" \x7d"
  | zsh => "compctl -k \"(" ++ words ++ ")\" cxxbind"

end Shell

end Bindery
