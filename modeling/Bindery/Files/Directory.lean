import Bindery.Files.Access

/-!
# Directories as values

A directory with everything in it, as a list of files and directories by the parts of their paths.
Parts count from the directory on; those of a place outside start with `..`, or with a slash for
the root.  Outside there is nothing but the directories around.

## Main definitions

* `Directory` — the directory; an instance of `FileAccess` for computations on it.
* `Directory.resolve` — what a path leads to.
* `Directory.read`, `Directory.write`, `Directory.create` — the operations on it.
-/

namespace Bindery

/-- A directory: its files by their parts, and the directories made in it. -/
structure Directory where
  files : List (List String × String) := []
  /-- Of a directory in another one only the inner one is listed. -/
  dirs : List (List String) := []
  deriving DecidableEq, Repr, Inhabited

/-- What a path leads to. -/
inductive Spot
  | dir (parts : List String)
  | file (parts : List String)
  /-- Nothing, but in a directory that exists. -/
  | vacant (parts : List String)
  deriving DecidableEq, Repr, Inhabited

namespace Directory

/-- The parts of a path. -/
def partsOf (path : String) : List String := path.splitOn "/"

/-- The path of a file in the directory. -/
def pathOf (parts : List String) : String := "/".intercalate parts

/-- The content of a file. -/
def content? (d : Directory) (parts : List String) : Option String := d.files.lookup parts

/-- The parts lead to a directory: to one around the whole, to one that has been made, or to one
with something in it. -/
def isDir (d : Directory) (parts : List String) : Bool :=
  parts.all (· == "..") || parts == ["/"] || d.dirs.any (parts.isPrefixOf ·) ||
    d.files.any fun f => parts.isPrefixOf f.1 && f.1 != parts

/-- What some parts lead to, given that the directory around it exists. -/
def look (d : Directory) (parts : List String) : Spot :=
  if (d.content? parts).isSome then .file parts
  else if d.isDir parts then .dir parts
  else .vacant parts

/-- The directory around a directory; the root has none but itself. -/
def up (parts : List String) : List String :=
  if parts.all (· == "..") then parts ++ [".."]
  else if parts == ["/"] then parts
  else parts.dropLast

/-- Where a path starts. -/
def start (path : String) : Spot := .dir (if path.startsWith "/" then ["/"] else [])

/-- How many bytes a name may have. -/
def nameLimit : Nat := 255

/-- How many bytes a path may have. -/
def pathLimit : Nat := 4095

/-- Follows one part of a path. -/
def follow (d : Directory) (spot : Spot) (part : String) : Except FileFailure Spot :=
  match spot with
  | .vacant _ => .error .notFound
  | .file _ => .error .notADirectory
  | .dir parts =>
    if part.isEmpty || part == "." then .ok (.dir parts)
    else if part == ".." then .ok (.dir (up parts))
    else if part.utf8ByteSize > nameLimit then .error .nameTooLong
    else .ok (d.look (parts ++ [part]))

/-- Fails if a text cannot be the path of anything. -/
def checkPath (path : String) : Except FileFailure Unit :=
  if path.toList.contains '\x00' then .error .invalidPath
  else if path.utf8ByteSize > pathLimit then .error .nameTooLong
  else .ok ()

/-- What a path leads to. -/
def resolve (d : Directory) (path : String) : Except FileFailure Spot := do
  checkPath path
  if path.isEmpty then throw .notFound
  (partsOf path).foldlM d.follow (start path)

/-- The content of the file that a path leads to. -/
def read (d : Directory) (path : String) : Except FileFailure String := do
  match ← d.resolve path with
  | .file parts => return (d.content? parts).getD ""
  | .dir _ => throw .isDirectory
  | .vacant _ => throw .notFound

/-- Gives a file a content. -/
def put (d : Directory) (parts : List String) (content : String) : Directory :=
  { d with files := d.files.filter (·.1 != parts) ++ [(parts, content)] }

/-- A path without the slashes it ends with. -/
def withoutSlashes (path : String) : String :=
  String.ofList (path.toList.reverse.dropWhile (· == '/')).reverse

/-- Gives the file that a path leads to a content.  A slash behind the name of a new file makes it
that of a directory. -/
def write (d : Directory) (path content : String) : Except FileFailure Directory := do
  checkPath path
  if path.endsWith "/" then
    if let .ok (.vacant _) := d.resolve (withoutSlashes path) then throw .isDirectory
  match ← d.resolve path with
  | .file parts | .vacant parts => return d.put parts content
  | .dir _ => throw .isDirectory

/-- Follows one part of a path, and makes a directory where there is nothing. -/
def enter (state : Spot × Directory) (part : String) : Except FileFailure (Spot × Directory) := do
  let (spot, d) := state
  match ← d.follow spot part with
  | .vacant parts =>
    return (.dir parts, { d with dirs := parts :: d.dirs.filter (!·.isPrefixOf parts) })
  | spot => return (spot, d)

/-- Makes the directory that a path leads to, with those around it. -/
def create (d : Directory) (path : String) : Except FileFailure Directory := do
  checkPath path
  match ← (partsOf path).foldlM enter (start path, d) with
  | (.file _, _) => throw .alreadyExists
  | (_, d) => return d

/-- Makes a change to a directory, unless it fails. -/
def update (change : Directory → Except FileFailure Directory) :
    StateM Directory (Except FileFailure Unit) := do
  match change (← get) with
  | .ok d =>
    set d
    return .ok ()
  | .error e => return .error e

instance : FileAccess (StateM Directory) where
  readFile path := do return (← get).read path
  writeFile path content := update (·.write path content)
  createDirs path := update (·.create path)

/-- The directory that holds the given files; paths lead through directories as needed. -/
def ofFiles (files : List (String × String)) : Directory where
  files := files.map fun (path, content) =>
    ((partsOf path).filter fun p => !p.isEmpty && p != ".", content)

/-- The parts lead to a place in the directory. -/
def isInside (parts : List String) : Bool :=
  match parts.head? with
  | some part => part != ".." && part != "/"
  | none => false

/-- The files of a directory that another one does not hold with the same content. -/
def changedSince (d before : Directory) : List (String × String) :=
  (d.files.filter fun f => isInside f.1 && before.content? f.1 != some f.2).map
    fun (parts, content) => (pathOf parts, content)

end Directory

end Bindery
