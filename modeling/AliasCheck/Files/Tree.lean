import AliasCheck.Table

/-!
# File trees

Directories hold files and directories under names. A place in a tree is given by the names that
lead to it from the root; places and the names that someone writes are not the same, because the
latter may go up again.
-/

namespace AliasCheck

/-- Why a file cannot be used. -/
inductive FileError where
  | notFound
  | notDirectory
  | isDirectory
  /-- A directory is to be made where there is a file. -/
  | occupied
  /-- The file holds something else than text. -/
  | notText
  deriving DecidableEq, Repr

/-- The text of an error. -/
def FileError.message : FileError → String
  | notFound => "No such file or directory (os error 2)"
  | notDirectory => "Not a directory (os error 20)"
  | isDirectory => "Is a directory (os error 21)"
  | occupied => "File exists (os error 17)"
  | notText => "stream did not contain valid UTF-8"

/-- A file or a directory with all that is in it. -/
inductive FileTree where
  /-- A file with its text, if it holds text. -/
  | file (text : Option String)
  | directory (entries : List (String × FileTree))

namespace FileTree

/-- The name under which a directory holds itself. -/
def selfName : String := "."

/-- The name under which a directory holds the one above it. -/
def parentName : String := ".."

/-- What a directory holds; a file holds nothing. -/
def entries : FileTree → Table FileTree
  | directory entries => entries
  | file _ => []

/-- This is a directory. -/
def isDirectory : FileTree → Bool
  | directory _ => true
  | file _ => false

/-- What is found at a place. -/
def get? : (place : List String) → FileTree → Option FileTree
  | [], t => some t
  | name :: names, t => (Table.get? name t.entries).bind (get? names)

/-- Puts something at a place. Directories that are missing on the way are added. -/
def put (new : FileTree) : (place : List String) → FileTree → FileTree
  | [], _ => new
  | name :: names, t =>
    directory (Table.insert name (put new names ((Table.get? name t.entries).getD (directory [])))
      t.entries)

/-- What was put at a place is found there. -/
theorem get?_put (new : FileTree) (place : List String) (t : FileTree) :
    get? place (put new place t) = some new := by
  induction place generalizing t with
  | nil => rfl
  | cons name names ih => simp [put, get?, entries, Table.get?_insert, ih]

/-- The place to which written names lead from the place `here`. Each name is looked up in what the
names before it lead to, so that has to be a directory. -/
def locate (t : FileTree) (here : List String) : (names : List String) →
    Except FileError (List String)
  | [] => .ok here
  | name :: names =>
    match get? here t with
    | none => .error .notFound
    | some (file _) => .error .notDirectory
    | some (directory entries) =>
      if name = selfName then locate t here names
      else if name = parentName then locate t here.dropLast names
      else if (Table.get? name entries).isSome then locate t (here ++ [name]) names
      else .error .notFound

/-- Adds the directories that are missing on the way that written names lead from the place `here`.
What was added in front of a failure stays. A file on the way is noticed in two ways: by who tries
to pass it, or, if it stands at the end or something was added before, by who tries to make a
directory in its place. -/
def addDirectories (added : Bool) (t : FileTree) (here : List String) : (names : List String) →
    FileTree × Option FileError
  | [] => (t, none)
  | name :: names =>
    if name = selfName then addDirectories added t here names
    else if name = parentName then addDirectories added t here.dropLast names
    else
      match get? here t with
      | none => (t, some .notFound)
      | some (file _) => (t, some .notDirectory)
      | some (directory entries) =>
        let next := here ++ [name]
        match Table.get? name entries with
        | some (directory _) => addDirectories added t next names
        | some (file _) => (t, some (if added || names.isEmpty then .occupied else .notDirectory))
        | none => addDirectories true (put (directory []) next t) next names

mutual

/-- The files in a tree, with their places. -/
def files : FileTree → List (List String × Option String)
  | file text => [([], text)]
  | directory entries => filesIn entries
  termination_by structural t => t

/-- The files under the names in a directory, with their places. -/
def filesIn : List (String × FileTree) → List (List String × Option String)
  | [] => []
  | (name, t) :: rest => (files t).map (fun entry => (name :: entry.1, entry.2)) ++ filesIn rest
  termination_by structural entries => entries

end

mutual

/-- The places of the directories in a tree. -/
def directories : FileTree → List (List String)
  | file _ => []
  | directory entries => [] :: directoriesIn entries
  termination_by structural t => t

/-- The places of the directories under the names in a directory. -/
def directoriesIn : List (String × FileTree) → List (List String)
  | [] => []
  | (name, t) :: rest => (directories t).map (name :: ·) ++ directoriesIn rest
  termination_by structural entries => entries

end

end FileTree

end AliasCheck
