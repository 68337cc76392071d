import AliasCheck.Command
import AliasCheck.Files
import AliasCheck.Glob.Expand
import AliasCheck.Glob.Grammar

/-!
# The files that concern a command

A command is carried out on a tree of files, but no more of a file system has to be put into that
tree than what the paths and globs of the command can lead to.
-/

namespace AliasCheck

/-- What is at a path and a number of levels below it. -/
structure Reach where
  path : String
  depth : Nat
  deriving DecidableEq, Repr

namespace Reach

/-- The number of levels that are looked at where a glob has no bound. -/
def maxDepth : Nat := 64

/-- What the parts of a glob can lead to when they are followed from a path. -/
def ofParts (path : String) : List Glob.Part → Reach
  | .name text :: parts => ofParts (Glob.extend path text) parts
  | parts => ⟨path, if parts.contains .directories then maxDepth else parts.length⟩

/-- What an input of a check can lead to. -/
def ofInput (input : String) : Reach :=
  if input.toList.any Glob.isMagic then
    match Glob.parse input with
    | .ok g => ofParts (if g.absolute then "/" else FileTree.selfName) g.parts
    | .error _ => ⟨FileTree.selfName, 0⟩
  else ⟨input, 0⟩

end Reach

/-- The path from which a check takes its types. -/
def Origin.path : Origin → String
  | source path | registry path => path

/-- What a command can look at. -/
def Command.reach : Command → List Reach
  | types source out => ⟨source, 0⟩ :: out.toList.map fun path => ⟨path, 0⟩
  | check options => ⟨options.origin.path, 0⟩ :: options.inputs.map Reach.ofInput

/-- The place to which a name leads from a place if it stands for itself. -/
def stepTo (place : List String) (name : String) : List String :=
  if name = FileTree.selfName then place
  else if name = FileTree.parentName then place.dropLast
  else place ++ [name]

/-- The beginnings of the path that follows names from a path, each with its place. -/
def stagesFrom (path : String) (place : List String) : List String → List (String × List String)
  | [] => [(path, place)]
  | name :: names =>
    (path, place) :: stagesFrom (Glob.join path name) (stepTo place name) names

/-- The beginnings of a path, each with its place. -/
def Path.stages (here : List String) (p : Path) : List (String × List String) :=
  if p.absolute then stagesFrom "/" [] p.names else stagesFrom FileTree.selfName here p.names

/-- The files with one more thing that is known to be at a place. -/
def Files.note (files : Files) (place : List String) (t : FileTree) : Files :=
  if (files.root.get? place).isSome then files
  else { files with root := FileTree.put t place files.root }

end AliasCheck
