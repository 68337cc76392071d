import AliasCheck.Json
import AliasCheck.Schema

/-!
# Schemas as JSON records

A schema is stored as a JSON object with the name first and then those of its other fields that say
something: a false mark and an absent detail are left out.
-/

namespace AliasCheck

mutual

/-- The record of a schema. -/
def Schema.toJson : Schema → Json
  | ⟨nullable, shape⟩ =>
    .object (("name", .string shape.name)
      :: ((if nullable then [("nullable", .bool true)] else []) ++ shape.details))
  termination_by structural s => s

/-- The field that holds the detail of a shape, if it has any. -/
def Shape.details : Shape → List (String × Json)
  | .value _ => []
  | .literal _ text => [("literal", .string text)]
  | .object properties => [("properties", .array (Property.toJsonList properties))]
  | .generic _ params => [("params", .array (Schema.toJsonList params))]
  | .union members => [("types", .array (Schema.toJsonList members))]
  termination_by structural s => s

/-- The record of a property. -/
def Property.toJson : Property → Json
  | ⟨key, schema, optional⟩ =>
    .object (("key", .string key) :: ("type", schema.toJson)
      :: (if optional then [("optional", .bool true)] else []))
  termination_by structural p => p

/-- The records of schemas. -/
def Schema.toJsonList : List Schema → List Json
  | [] => []
  | s :: ss => s.toJson :: Schema.toJsonList ss
  termination_by structural ss => ss

/-- The records of properties. -/
def Property.toJsonList : List Property → List Json
  | [] => []
  | p :: ps => p.toJson :: Property.toJsonList ps
  termination_by structural ps => ps

end

end AliasCheck
