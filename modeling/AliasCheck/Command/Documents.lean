import AliasCheck.Command.RunError
import AliasCheck.Glob.Expand
import AliasCheck.Text.Unicode.Ranges

/-!
# Documents

The documents for a check come from files that are named one by one or by globs. A file holds one
document, or one on each line that is not blank. Each document has a label that says where it comes
from.
-/

namespace AliasCheck

/-- A document, and where it comes from. -/
structure Document where
  label : String
  value : Json

namespace Document

/-- The paths that an input stands for, in order. -/
def paths (files : Files) (input : String) : Except RunError (List String) :=
  if input.toList.any Glob.isMagic then
    match Glob.parse input with
    | .error fault => .error (.badGlob input fault)
    | .ok g =>
      match Glob.expand files g with
      | [] => .error (.noMatch input)
      | found => .ok found
  else .ok [input]

/-- The document in a text that fills a file. -/
def ofText (path : String) (text : List Char) : Except RunError Document :=
  match Json.parse text with
  | .ok value => .ok ⟨path, value⟩
  | .error fault => .error (.badDocument path text fault)

/-- There is only white space in a line. -/
def isBlankLine (line : List Char) : Bool := line.all Unicode.isSpace

/-- The document in a line with its number. -/
def ofLine (path : String) (line : List Char) (number : Nat) : Except RunError Document :=
  let label := s!"{path}:{number}"
  match Json.parse line with
  | .ok value => .ok ⟨label, value⟩
  | .error fault => .error (.badLine label line fault)

/-- The documents on the lines of a text. Blank lines hold none, but they count as lines. -/
def ofLines (path : String) (text : List Char) : Except RunError (List Document) :=
  (((lines text).zipIdx 1).filter fun (line, _) => ! isBlankLine line).mapM
    fun (line, number) => ofLine path line number

/-- The documents in a file. -/
def ofFile (files : Files) (linewise : Bool) (path : String) : Except RunError (List Document) :=
  match files.read path with
  | .error error => .error (.unreadableDocument path error)
  | .ok text =>
    if linewise then ofLines path text.toList
    else (ofText path text.toList).map fun document => [document]

/-- The documents that inputs stand for, in order. Files are read only when it is known that all
inputs stand for something. -/
def load (files : Files) (linewise : Bool) (inputs : List String) :
    Except RunError (List Document) := do
  let found ← inputs.mapM (paths files)
  let documents ← found.flatten.mapM (ofFile files linewise)
  return documents.flatten

end Document

end AliasCheck
