import AliasCheck.Schema
import AliasCheck.Text.Escape

/-!
# Displaying schemas

A schema is displayed in the notation of the declarations it comes from, on one line.
-/

namespace AliasCheck

mutual

/-- The text of a schema. -/
def Schema.display : Schema → String
  | ⟨nullable, shape⟩ => (if nullable then "?" else "") ++ shape.display nullable
  termination_by structural s => s

/-- The text of a shape; a union that stands behind a question mark needs parentheses. -/
def Shape.display (nullable : Bool) : Shape → String
  | .value name => name
  | .literal _ text => quote text
  | .object [] => "\x7b\x7d"
  | .object (p :: ps) => "\x7b " ++ p.display ++ Property.displayMore ps ++ " \x7d"
  | .generic name [] => name ++ "<>"
  | .generic name (s :: ss) => name ++ "<" ++ s.display ++ Schema.displayMore ", " ss ++ ">"
  | .union [] => if nullable then "()" else ""
  | .union (s :: ss) =>
    let text := s.display ++ Schema.displayMore " | " ss
    if nullable then "(" ++ text ++ ")" else text
  termination_by structural s => s

/-- The text of a property. -/
def Property.display : Property → String
  | ⟨key, schema, optional⟩ => key ++ (if optional then "?" else "") ++ ": " ++ schema.display
  termination_by structural p => p

/-- The text of schemas that follow another one, each behind a separator. -/
def Schema.displayMore (separator : String) : List Schema → String
  | [] => ""
  | s :: ss => separator ++ s.display ++ Schema.displayMore separator ss
  termination_by structural ss => ss

/-- The text of properties that follow another one. -/
def Property.displayMore : List Property → String
  | [] => ""
  | p :: ps => "; " ++ p.display ++ Property.displayMore ps
  termination_by structural ps => ps

end

end AliasCheck
