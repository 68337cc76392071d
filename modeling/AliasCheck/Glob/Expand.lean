import AliasCheck.Files
import AliasCheck.Glob

/-!
# The paths that fit a glob

Paths are found by following the parts of a glob through the tree of files. What is found in one
directory comes in the order of the names. Two things keep this from being a plain filter on all
paths: a name is looked up as it stands, so it may also lead upwards, and the path shows the way
that was taken.
-/

namespace AliasCheck
namespace Glob

/-- The path leads nowhere else than to the working directory. Names that are looked up from there
need no path in front of them. -/
def isHere (path : String) : Bool :=
  match Path.ofString? path with
  | some p => !p.absolute && p.names ≠ [] && p.names.all (· = FileTree.selfName)
  | none => false

/-- The path of a name in a directory. -/
def join (path name : String) : String :=
  if path.isEmpty || path.toList.getLast? = some '/' then path ++ name else path ++ "/" ++ name

/-- The path of a name that was found in a directory. -/
def extend (path name : String) : String := if isHere path then name else join path name

/-- Findings under names, in the order of the names. -/
def inOrder {α : Type} (found : List (String × List α)) : List α :=
  (found.mergeSort fun x y => x.1 ≤ y.1).flatMap Prod.snd

mutual

/-- What is found below a path: for each name in the directory, first what is found at it, then what
is found below it. -/
def below (atName : String → String → Bool → List String) (path : String) :
    FileTree → List String
  | .file _ => []
  | .directory entries => inOrder (belowNames atName path entries)
  termination_by structural t => t

/-- What is found at and below each name in a directory. -/
def belowNames (atName : String → String → Bool → List String) (path : String) :
    List (String × FileTree) → List (String × List String)
  | [] => []
  | (name, t) :: rest =>
    let next := extend path name
    (name, atName next name t.isDirectory ++ below atName next t) :: belowNames atName path rest
  termination_by structural entries => entries

end

/-- The paths at which the parts of a glob end when they are followed from a path. A mask that
begins with a dot also fits the names by which a directory knows itself and the one above. -/
def follow (files : Files) (closed : Bool) : List Part → (path : String) → List String
  | [], path => if closed && !files.hasDirectory path then [] else [path]
  | .name text :: parts, path =>
    let next := extend path text
    let found :=
      if text = FileTree.selfName || text = FileTree.parentName then files.hasDirectory path
      else files.has next
    if found then follow files closed parts next else []
  | .mask marks :: parts, path =>
    match files.find path with
    | .ok (.directory entries) =>
      let special := [FileTree.parentName, FileTree.selfName].filter fun name =>
        marks.head? = some (.char '.') && fits marks name.toList
      special.flatMap (fun name => follow files closed parts (join path name))
        ++ inOrder (entries.map fun (name, _) =>
          (name, if fits marks name.toList then follow files closed parts (extend path name)
            else []))
    | _ => []
  | [.directories], path =>
    match files.find path with
    | .ok t => below (fun next _ isDirectory => if isDirectory then [next] else []) path t
    | .error _ => []
  | .directories :: part :: parts, path =>
    match files.find path with
    | .ok t =>
      below (fun next name _ => if part.fitsName name then follow files closed parts next else [])
        path t
    | .error _ => []

/-- The paths that fit a glob. -/
def expand (files : Files) (g : Glob) : List String :=
  follow files g.closed g.parts (if g.absolute then "/" else FileTree.selfName)

end Glob
end AliasCheck
