import TokenTariff.Text.Utf8
/-!
# Files and directories

A file tree is a file or a directory of named file trees. A disk is a file tree with a directory in
which relative paths begin. Reading and writing fail as they do on a real disk, with the same
causes.

A path is divided at its slashes into steps, each of which is taken from a directory: a single dot
stays there, two dots lead to the directory around it, and a name leads to an entry. A path that
goes through a file, or through nothing, leads nowhere, even if two dots take it back. A path that
ends in a slash can only be that of a directory, and the empty path is that of nothing.

* `FileTree.find?` and `FileTree.changeAt` work on places, which are lists of names;
* `Disk.locate` gives the place to which a path leads;
* `Disk.read`, `Disk.write`, `Disk.makeAround` and `Disk.remove` work on paths.
-/

namespace TokenTariff
set_option autoImplicit false

inductive FileError where
  | notFound
  | alreadyExists
  | notADirectory
  | isADirectory
  | nameTooLong
  | nulInName
  deriving DecidableEq

def FileError.message : FileError → String
  | notFound => "No such file or directory (os error 2)"
  | alreadyExists => "File exists (os error 17)"
  | notADirectory => "Not a directory (os error 20)"
  | isADirectory => "Is a directory (os error 21)"
  | nameTooLong => "File name too long (os error 36)"
  | nulInName => "file name contained an unexpected NUL byte"

inductive FileTree where
  | file (content : Bytes)
  | directory (entries : List (String × FileTree))

namespace FileTree

abbrev Entries : Type := List (String × FileTree)

/-- Puts a tree under a name, in place of the one that was there. -/
def setEntry (name : String) (tree : FileTree) : Entries → Entries
  | [] => [(name, tree)]
  | (other, kept) :: rest =>
    if name = other then (name, tree) :: rest else (other, kept) :: setEntry name tree rest

def dropEntry (name : String) (entries : Entries) : Entries :=
  entries.filter (·.1 != name)

def find? : FileTree → (place : List String) → Option FileTree
  | tree, [] => some tree
  | file _, _ :: _ => none
  | directory entries, name :: place =>
    match entries.lookup name with
    | none => none
    | some tree => tree.find? place

/-- Changes the entries of the directory at a place, if there is one. -/
def changeAt (change : Entries → Entries) : FileTree → (place : List String) → FileTree
  | file content, _ => file content
  | directory entries, [] => directory (change entries)
  | directory entries, name :: place =>
    match entries.lookup name with
    | none => directory entries
    | some tree => directory (setEntry name (tree.changeAt change place) entries)

end FileTree

/-! ## Paths -/

namespace Path

/-- What stands between two slashes of a path. -/
inductive Step where
  | stay
  | up
  | enter (name : String)

/-- The step that a text writes; between two slashes in a row there is none. -/
def Step.ofText? (text : List Char) : Option Step :=
  if text = [] then none
  else if text = ['.'] then some stay
  else if text = ['.', '.'] then some up
  else some (enter (String.ofList text))

/-- The place to which a step leads. -/
def Step.apply (place : List String) : Step → List String
  | stay => place
  | up => place.dropLast
  | enter name => place ++ [name]

/-- The texts between the slashes of a text. -/
def divide : List Char → List (List Char)
  | [] => [[]]
  | c :: rest =>
    if c = '/' then [] :: divide rest
    else
      match divide rest with
      | [] => [[c]]
      | name :: names => (c :: name) :: names

def steps (path : String) : List Step :=
  (divide path.toList).filterMap Step.ofText?

def isAbsolute (path : String) : Bool :=
  path.toList.head? == some '/'

/-- The place to which a path leads from the place `start`, if it leads anywhere. -/
def place (start : List String) (path : String) : List String :=
  (steps path).foldl Step.apply (if isAbsolute path then [] else start)

/-- Whether a path can only be that of a directory. -/
def isOfDirectory (path : String) : Bool :=
  path.toList.getLast? == some '/'

/-- A path inside of the directory `parent`, with one slash between the two. -/
def join (parent path : String) : String :=
  if parent.isEmpty || isOfDirectory parent then parent ++ path else parent ++ "/" ++ path

def maxNameSize : Nat := 255

def maxSize : Nat := 4095

/-! ### The directories around a path -/

/-- A path, last character first, without the slashes and the steps that stay at its end. -/
def trimEnd : (reversed : List Char) → List Char
  | [] => []
  | ['/'] => ['/']
  | '/' :: rest => trimEnd rest
  | '.' :: '/' :: rest => trimEnd ('/' :: rest)
  | c :: rest => c :: rest

/-- The paths that are left when up to `fuel` steps are taken away one by one, the last of them
first; a path that is the root or empty ends them. -/
def shortenedFrom : (fuel : Nat) → (reversed : List Char) → List String
  | 0, _ => []
  | fuel + 1, reversed =>
    match trimEnd reversed with
    | [] => []
    | ['/'] => []
    | trimmed =>
      String.ofList trimmed.reverse :: shortenedFrom fuel (trimmed.dropWhile (· != '/'))

/-- A path and the paths of the directories around it that it goes through, from the inside out. -/
def lineage (path : String) : List String :=
  shortenedFrom path.length path.toList.reverse

end Path

/-! ## Disks -/

/-- A file tree, and the place of the directory in which relative paths begin. -/
structure Disk where
  root : FileTree
  start : List String

namespace Disk

/-- The disk with nothing on it but the directory in which relative paths begin. -/
def empty (start : List String) : Disk :=
  ⟨start.foldr (fun name tree => .directory [(name, tree)]) (.directory []), start⟩

/-! ### Places -/

/-- What there is at a place; the directory around it has to be there. -/
def look (disk : Disk) (place : List String) : Except FileError FileTree :=
  if Path.maxNameSize < (place.getLast?.getD "").utf8ByteSize then .error .nameTooLong
  else
    match disk.root.find? place with
    | none => .error .notFound
    | some tree => .ok tree

/-- The place one step away from a directory. -/
def step (disk : Disk) (place : List String) (step : Path.Step) : Except FileError (List String) :=
  match disk.look place with
  | .error e => .error e
  | .ok (.file _) => .error .notADirectory
  | .ok (.directory _) => .ok (step.apply place)

/-- The place to which a path leads. What the last step enters may be missing. -/
def locate (disk : Disk) (path : String) : Except FileError (List String) :=
  if path.toList.contains '\x00' then .error .nulInName
  else if path.isEmpty then .error .notFound
  else if Path.maxSize < path.utf8ByteSize then .error .nameTooLong
  else (Path.steps path).foldlM disk.step (if Path.isAbsolute path then [] else disk.start)

/-- Puts a tree at a place, whose directory has to be there. -/
def putAt (disk : Disk) (place : List String) (tree : FileTree) : Disk :=
  match place.getLast? with
  | none => disk
  | some name =>
    { disk with root := disk.root.changeAt (FileTree.setEntry name tree) place.dropLast }

def dropAt (disk : Disk) (place : List String) : Disk :=
  match place.getLast? with
  | none => disk
  | some name => { disk with root := disk.root.changeAt (FileTree.dropEntry name) place.dropLast }

/-! ### Files -/

def find (disk : Disk) (path : String) : Except FileError FileTree := do
  match ← disk.look (← disk.locate path) with
  | .file content =>
    if Path.isOfDirectory path then .error .notADirectory else .ok (.file content)
  | .directory entries => .ok (.directory entries)

def has (disk : Disk) (path : String) : Bool :=
  (disk.find path).toOption.isSome

def read (disk : Disk) (path : String) : Except FileError Bytes := do
  match ← disk.find path with
  | .file content => .ok content
  | .directory _ => .error .isADirectory

/-- Writes a file; its directory has to be there. -/
def write (disk : Disk) (path : String) (content : Bytes) : Except FileError Disk := do
  let place ← disk.locate path
  if Path.isOfDirectory path then .error .isADirectory
  else
    match disk.look place with
    | .ok (.directory _) => .error .isADirectory
    | .ok (.file _) | .error .notFound => .ok (disk.putAt place (.file content))
    | .error e => .error e

/-- Takes away a file, if there is one at the path. -/
def remove (disk : Disk) (path : String) : Disk :=
  match disk.find path, disk.locate path with
  | .ok (.file _), .ok place => disk.dropAt place
  | _, _ => disk

/-! ### Directories -/

def hasDirectory (disk : Disk) (path : String) : Bool :=
  match disk.find path with
  | .ok (.directory _) => true
  | _ => false

/-- Makes a directory where there is nothing. -/
def makeNew (disk : Disk) (path : String) : Except FileError Disk := do
  let place ← disk.locate path
  match disk.look place with
  | .ok _ => .error .alreadyExists
  | .error .notFound => .ok (disk.putAt place (.directory []))
  | .error e => .error e

/-- Makes a directory unless it is there. -/
def make (disk : Disk) (path : String) : Except FileError Disk :=
  match disk.makeNew path with
  | .ok disk => .ok disk
  | .error e => if disk.hasDirectory path then .ok disk else .error e

/-- Makes the first of the directories, and those around it, which follow it from the inside out,
as far as they are not there. After a failure some of them may have been made. -/
def makeEach (disk : Disk) : (paths : List String) → Disk × Except FileError Unit
  | [] => (disk, .ok ())
  | path :: around =>
    match disk.make path with
    | .ok disk => (disk, .ok ())
    | .error .notFound =>
      match disk.makeEach around with
      | (disk, .error e) => (disk, .error e)
      | (disk, .ok ()) =>
        match disk.make path with
        | .ok disk => (disk, .ok ())
        | .error e => (disk, .error e)
    | .error e => (disk, .error e)

/-- Makes the directory of a path, and those around it. -/
def makeDirectories (disk : Disk) (path : String) : Disk × Except FileError Unit :=
  disk.makeEach (Path.lineage path)

/-- Makes the directories around a path. -/
def makeAround (disk : Disk) (path : String) : Disk × Except FileError Unit :=
  disk.makeEach (Path.lineage path).tail

/-- Writes a file, and makes the directories around it. -/
def writeWithin (disk : Disk) (path : String) (content : Bytes) : Disk × Except FileError Unit :=
  match disk.makeAround path with
  | (disk, .error e) => (disk, .error e)
  | (disk, .ok ()) =>
    match disk.write path content with
    | .error e => (disk, .error e)
    | .ok disk => (disk, .ok ())

end Disk

end TokenTariff
