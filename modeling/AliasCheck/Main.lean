import AliasCheck.Command.Arguments
import AliasCheck.Command.Run
import AliasCheck.Command.Scope

/-!
# The command line

The command is read from the arguments and carried out on what the file system holds within its
reach. What it reports is printed, and what it has written is written to the file system. The exit
code is 0 if all is well, 1 if there are documents with errors, and 2 if something went wrong.
-/

namespace AliasCheck
namespace CommandLine

/-- What is printed when help is asked for. -/
def help : String :=
  "usage: types SOURCE [--out FILE]\n" ++
  "       check (--source FILE | --registry FILE) --type NAME [--pattern NAME=PATTERN]...\n" ++
  "         [--type-of NAME=SORT]... [--any NAME]... [--ndjson] [--verbose] --input FILE...\n"

/-- Notes what is at a path and, as deep as `depth`, below it. -/
def look : (depth : Nat) → (path : String) → (place : List String) → Files → IO Files
  | depth, path, place, files => do
    let real ← IO.FS.realPath path
    if ← real.isDir then
      let files := files.note place (.directory [])
      match depth with
      | 0 => return files
      | depth + 1 =>
        (← real.readDir).foldlM (fun files entry => do
          try look depth (Glob.join path entry.fileName) (place ++ [entry.fileName]) files
          catch _ => return files) files
    else return files.note place (.file (String.fromUTF8? (← IO.FS.readBinFile path)))

/-- Notes what is within reach. -/
def lookAt (files : Files) (reach : Reach) : IO Files := do
  let some path := Path.ofString? reach.path | return files
  let stages := path.stages files.here
  stages.zipIdx.foldlM (fun files ((path, place), number) => do
    try look (if number + 1 = stages.length then reach.depth else 0) path place files
    catch _ => return files) files

/-- The files within the reach of a command. -/
def files (command : Command) : IO Files := do
  let here := ((Path.ofString? (← IO.currentDir).toString).map Path.names).getD []
  command.reach.foldlM lookAt ⟨FileTree.put (.directory []) here (.directory []), here⟩

/-- The path from the root to a place. -/
def absolutePath (place : List String) : String := "/" ++ "/".intercalate place

/-- Carries out a command and gives the exit code. -/
def run (command : Command) : IO UInt32 := do
  let painted ← (← IO.getStdout).isTty
  let before ← files command
  let report := command.run painted before
  for place in before.newDirectories report.files do
    IO.FS.createDirAll (absolutePath place)
  for (place, text) in before.changes report.files do
    IO.FS.writeFile (absolutePath place) text
  IO.print report.stdout
  IO.eprint report.stderr
  match report.result with
  | .ok valid => return if valid then 0 else 1
  | .error error =>
    IO.eprintln s!"error: {error.message}"
    return 2

end CommandLine
end AliasCheck

/-- Carries out the command that the arguments ask for. -/
def main (arguments : List String) : IO UInt32 := do
  match AliasCheck.Command.ofArguments arguments with
  | .ok command => AliasCheck.CommandLine.run command
  | .error .helpRequested =>
    IO.print AliasCheck.CommandLine.help
    return 0
  | .error error =>
    IO.eprintln s!"error: {error.message}"
    IO.eprint AliasCheck.CommandLine.help
    return 2
