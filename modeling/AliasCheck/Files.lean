import AliasCheck.Files.Tree
import AliasCheck.Text.Parts

/-!
# Files

The files that a command works on: a tree and the working directory, from which relative paths lead.
-/

namespace AliasCheck

/-- A path. -/
structure Path where
  /-- The path leads from the root of the tree. -/
  absolute : Bool
  names : List String
  /-- There is a slash behind the last name, which therefore has to be that of a directory. -/
  closed : Bool
  deriving DecidableEq, Repr

/-- The path that a text stands for. The empty text stands for none. -/
def Path.ofString? (text : String) : Option Path :=
  if text.isEmpty then none
  else some {
    absolute := text.toList.head? = some '/'
    names := ((splitAt '/' text.toList).filter (! ·.isEmpty)).map String.ofList
    closed := text.toList.getLast? = some '/' }

/-- A tree of files, seen from a directory in it. -/
structure Files where
  root : FileTree
  /-- The place of the working directory. -/
  here : List String

namespace Files

/-- The place from which a path leads. -/
def start (files : Files) (p : Path) : List String := if p.absolute then [] else files.here

/-- What a path leads to. -/
def find (files : Files) (path : String) : Except FileError FileTree :=
  match Path.ofString? path with
  | none => .error .notFound
  | some p => do
    let place ← files.root.locate (files.start p) p.names
    match files.root.get? place with
    | none => .error .notFound
    | some (.file text) => if p.closed then .error .notDirectory else .ok (.file text)
    | some t => .ok t

/-- There is something at the end of a path. -/
def has (files : Files) (path : String) : Bool := (files.find path).toOption.isSome

/-- There is a directory at the end of a path. -/
def hasDirectory (files : Files) (path : String) : Bool :=
  (files.find path).toOption.any FileTree.isDirectory

/-- The text of the file at the end of a path. -/
def read (files : Files) (path : String) : Except FileError String := do
  match ← files.find path with
  | .file (some text) => .ok text
  | .file none => .error .notText
  | .directory _ => .error .isDirectory

/-- Adds the directories that are missing above the end of a path. What was added in front of a
failure stays. -/
def addParents (files : Files) (path : String) : Files × Option FileError :=
  match Path.ofString? path with
  | none => (files, none)
  | some p =>
    let names := (p.names.filter (· ≠ FileTree.selfName)).dropLast
    let (root, failure) := files.root.addDirectories false (files.start p) names
    ({ files with root }, failure)

/-- The place where a file can be written so that a path leads to it. -/
def placeToWrite (files : Files) (path : String) : Except FileError (List String) :=
  match Path.ofString? path with
  | none => .error .notFound
  | some p =>
    match p.names.getLast? with
    | none => .error .isDirectory
    | some name => do
      let parent ← files.root.locate (files.start p) p.names.dropLast
      match files.root.get? parent with
      | none => .error .notFound
      | some (.file _) => .error .notDirectory
      | some (.directory entries) =>
        if p.closed || name = FileTree.selfName || name = FileTree.parentName
            || (Table.get? name entries).any FileTree.isDirectory then .error .isDirectory
        else .ok (parent ++ [name])

/-- Writes a file; one that is there already is replaced. -/
def write (files : Files) (path text : String) : Except FileError Files := do
  let place ← files.placeToWrite path
  return { files with root := FileTree.put (.file (some text)) place files.root }

/-- The places and texts of the files that are not what they were before. -/
def changes (before after : Files) : List (List String × String) :=
  after.root.files.filterMap fun (place, text) =>
    match text, before.root.get? place with
    | some new, some (.file (some old)) => if new = old then none else some (place, new)
    | some new, _ => some (place, new)
    | none, _ => none

/-- The places of the directories that were not there before. -/
def newDirectories (before after : Files) : List (List String) :=
  after.root.directories.filter fun place => (before.root.get? place).isNone

end Files

end AliasCheck
