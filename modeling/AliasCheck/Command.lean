import AliasCheck.Pattern

/-!
# Commands

There are two commands: one writes out the types that a source declares, the other checks documents
against one of them.
-/

namespace AliasCheck

/-- Where the types for a check come from. -/
inductive Origin where
  /-- A source that declares them. -/
  | source (path : String)
  /-- A registry that was written out before. -/
  | registry (path : String)

/-- What is to be checked, and how. -/
structure CheckOptions where
  origin : Origin
  /-- The name of the alias that the documents have to conform to. -/
  typeName : String
  /-- Names of types whose values have to match a pattern. -/
  patterns : List (String × Pattern)
  /-- Names of types whose values have to be of a sort, with the word for the sort. -/
  sorts : List (String × String)
  /-- Names of types for which every value will do. -/
  unchecked : List String
  /-- Each line of a file is a document of its own. -/
  linewise : Bool
  /-- Paths and globs of the files that hold the documents. -/
  inputs : List String
  /-- Documents without errors are listed too. -/
  verbose : Bool

/-- A command. -/
inductive Command where
  /-- Writes the types of a source to a file, or to standard output. -/
  | types (source : String) (out : Option String)
  | check (options : CheckOptions)

end AliasCheck
