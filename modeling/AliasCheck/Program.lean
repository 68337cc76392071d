import AliasCheck.TypeTerm

/-!
# Programs

A source is a sequence of statements, of which only type aliases have a structure. Everything else,
from imports to classes, is one statement of no interest each.
-/

namespace AliasCheck

/-- The declaration of a name for a type. -/
structure Alias where
  /-- The name that is declared. -/
  name : String
  /-- The names of the type parameters. -/
  params : List String
  /-- The type that the name stands for. -/
  body : TypeTerm

/-- A statement at the top level of a source. -/
inductive Statement where
  | declares (a : Alias)
  /-- A statement behind the word `export`. -/
  | exported (inner : Statement)
  /-- Any code that declares no alias. -/
  | other

/-- The statements of a source in order. -/
abbrev Program := List Statement

/-- The alias that a statement declares, exported once or not at all. -/
def Statement.declared? : Statement → Option Alias
  | declares a | exported (.declares a) => some a
  | _ => none

end AliasCheck
