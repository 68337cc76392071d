import AliasCheck.Files
import AliasCheck.Glob.Grammar
import AliasCheck.Registry
import AliasCheck.Validator

/-!
# Failures of commands

Whatever keeps a command from being carried out. Errors that were found in documents are not among
it: they are what a check reports.
-/

namespace AliasCheck

/-- Why a command cannot be carried out. -/
inductive RunError where
  /-- A source or a registry cannot be read. -/
  | unreadable (path : String) (error : FileError)
  | badSource (error : SyntaxError)
  | badRegistry (text : List Char) (error : Decode.Error)
  /-- There is no alias of a name among the ones that are known. -/
  | unknownType (name : String) (known : List String)
  | badSchema (error : ConfigError)
  | badGlob (glob : String) (fault : Glob.Fault)
  | noMatch (glob : String)
  /-- A file of documents cannot be read. -/
  | unreadableDocument (path : String) (error : FileError)
  /-- A file does not hold a document. -/
  | badDocument (path : String) (text : List Char) (fault : Json.Fault)
  /-- A line does not hold a document. -/
  | badLine (label : String) (line : List Char) (fault : Json.Fault)
  /-- The directories above a file that is to be written cannot be made. -/
  | noDirectory (error : FileError)
  | unwritable (path : String) (error : FileError)

/-- The text of an error. For a source or a registry the reason is told twice: as a part of what
went wrong and as what lies behind it. -/
def RunError.message : RunError → String
  | unreadable path error => s!"failed to read {path}: {error.message}: {error.message}"
  | badSource error => error.message
  | badRegistry text error => Registry.errorMessage text error
  | unknownType name known =>
    let names := ", ".intercalate known
    s!"no type alias named `{name}` (found: {names})"
  | badSchema error => error.message
  | badGlob glob fault => s!"bad glob pattern: {glob}: {fault.message}"
  | noMatch glob => s!"glob pattern matched no files: {glob}"
  | unreadableDocument path error => s!"failed to read source file {path}: {error.message}"
  | badDocument path text fault =>
    s!"failed to parse JSON source file ({path}): {fault.message text}"
  | badLine label line fault => s!"failed to parse JSON ({label}): {fault.message line}"
  | noDirectory error => error.message
  | unwritable path error => s!"failed to write {path}: {error.message}"

end AliasCheck
