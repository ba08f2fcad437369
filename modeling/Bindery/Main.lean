import Bindery.Command.Run

/-!
# The executable

Runs the program on the files of the system.
-/

namespace Bindery

/-- The reason of a failure of the system. -/
def FileFailure.ofError : IO.Error → FileFailure
  | .noFileOrDirectory .. => .notFound
  | .alreadyExists .. => .alreadyExists
  | .inappropriateType .. => .notADirectory
  | e => .other (toString e)

/-- Runs an action on files and returns the reason of a failure. -/
def attempt {α : Type} (action : IO α) : IO (Except FileFailure α) := do
  match ← action.toBaseIO with
  | .ok a => return .ok a
  | .error e => return .error (.ofError e)

instance : FileAccess IO where
  readFile path := attempt (IO.FS.readFile path)
  writeFile path content := attempt (IO.FS.writeFile path content)
  createDirs path := attempt (IO.FS.createDirAll path)

/-- Prints a line for the user. -/
def OutputLine.print : OutputLine → IO Unit
  | result text => IO.println text
  | problem text => IO.eprintln text

end Bindery

/-- Runs the program with the given arguments. -/
def main (arguments : List String) : IO UInt32 := do
  let outcome ← (Bindery.runProgram arguments : IO Bindery.Outcome)
  outcome.lines.forM Bindery.OutputLine.print
  return outcome.exitCode.toUInt32
