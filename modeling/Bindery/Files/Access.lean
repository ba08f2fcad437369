/-!
# Access to files

The operations of the program that read and write files do so through a small interface, so that
they can be run on the files of the system and on a directory that is a plain value.

## Main definitions

* `FileFailure` — why a file cannot be read or written.
* `FileAccess` — what a monad has to offer.
-/

namespace Bindery

/-- Why a file cannot be read or written. -/
inductive FileFailure
  | notFound
  | isDirectory
  | notADirectory
  | alreadyExists
  | nameTooLong
  /-- The path has a zero character in it. -/
  | invalidPath
  /-- Any other reason, in the words of the system. -/
  | other (text : String)
  deriving DecidableEq, Repr, Inhabited

/-- The failure in words. -/
def FileFailure.message : FileFailure → String
  | notFound => "No such file or directory (os error 2)"
  | isDirectory => "Is a directory (os error 21)"
  | notADirectory => "Not a directory (os error 20)"
  | alreadyExists => "File exists (os error 17)"
  | nameTooLong => "File name too long (os error 36)"
  | invalidPath => "file name contained an unexpected NUL byte"
  | other text => text

/-- Access to files. -/
class FileAccess (m : Type → Type) where
  /-- The content of a file. -/
  readFile : String → m (Except FileFailure String)
  /-- Gives a file a content, in place of the one it had. -/
  writeFile : String → String → m (Except FileFailure Unit)
  /-- Makes a directory, with those around it. -/
  createDirs : String → m (Except FileFailure Unit)

end Bindery
