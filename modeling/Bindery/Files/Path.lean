/-!
# Paths

A path is a text with slashes between its parts.  Parts that say nothing, empty ones and single
dots, are passed over when the last part is taken off; a dot in front counts.

## Main definitions

* `Path.parent?` — the path without its last part.
* `Path.join` — a path taken from another one.
-/

namespace Bindery.Path

/-- A path in reverse without the slashes and single dots it ends with.  A lone slash is the root
and stays, as does a lone dot. -/
def trimReversed : List Char → List Char
  | ['/'] => ['/']
  | '/' :: rest => trimReversed rest
  | '.' :: '/' :: rest => trimReversed ('/' :: rest)
  | r => r
termination_by r => r.length

/-- The path without its last part; the root and the empty path have none. -/
def parent? (path : String) : Option String :=
  match trimReversed path.toList.reverse with
  | [] | ['/'] => none
  | r => some (String.ofList (trimReversed (r.dropWhile (· != '/'))).reverse)

/-- The directory in which relative paths are to be looked up: the parent, or else the current
one. -/
def dir (path : String) : String := (parent? path).getD "."

/-- A path taken from another one; a path from the root stands for itself. -/
def join (base path : String) : String :=
  if path.startsWith "/" || base.isEmpty then path
  else if base.endsWith "/" then base ++ path
  else base ++ "/" ++ path

end Bindery.Path
