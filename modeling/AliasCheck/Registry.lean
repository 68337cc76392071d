import AliasCheck.Program.Grammar
import AliasCheck.Schema.Decode
import AliasCheck.Schema.Record

/-!
# Registries

A registry holds the schemas of the aliases of a source under their names. It is what documents are
checked against, and it can be stored as JSON.
-/

namespace AliasCheck

/-- Schemas by the names of the aliases. -/
abbrev Registry := Table Schema

mutual

/-- What a written type amounts to. A form that no document can be checked against becomes a name:
that of the form. -/
def TypeTerm.toSchema : TypeTerm → Schema
  | .object members _ => .object (Member.toProperties members)
  | .named name => .value name
  | .applied name args => .generic name (TypeTerm.toSchemas args)
  | .nullable inner => inner.toSchema.orNull
  | .stringLiteral value raw =>
    (Schema.value (TypeTerm.stringLiteral value raw).form).withLiteral value
  | .union members => .union (TypeTerm.toSchemas members)
  | .keyword .string => .value "string"
  | .keyword .number => .value "number"
  | .keyword .boolean => .value "boolean"
  | .keyword .any => .value "any"
  | .keyword word => .value (TypeTerm.keyword word).form
  | .numberLiteral raw => .value (TypeTerm.numberLiteral raw).form
  | .booleanLiteral value => .value (TypeTerm.booleanLiteral value).form
  | .intersection members => .value (TypeTerm.intersection members).form
  | .tuple items => .value (TypeTerm.tuple items).form
  | .function params returns => .value (TypeTerm.function params returns).form
  | .typeOf name => .value (TypeTerm.typeOf name).form
  | .existential => .value TypeTerm.existential.form
  termination_by structural t => t

/-- What a list of written types amounts to. -/
def TypeTerm.toSchemas : List TypeTerm → List Schema
  | [] => []
  | t :: ts => t.toSchema :: TypeTerm.toSchemas ts
  termination_by structural ts => ts

/-- The property that a member declares. -/
def Member.toProperty : Member → Property
  | ⟨key, value, optional⟩ => ⟨key, value.toSchema, optional⟩
  termination_by structural m => m

/-- The properties that members declare. -/
def Member.toProperties : List Member → List Property
  | [] => []
  | m :: ms => m.toProperty :: Member.toProperties ms
  termination_by structural ms => ms

end

namespace Registry

/-- The registry of a program: of two declarations of a name the later one counts. -/
def ofProgram (program : Program) : Registry :=
  (program.filterMap Statement.declared?).foldl
    (fun registry a => Table.insert a.name a.body.toSchema registry) []

/-- The registry of a source. -/
def ofSource (source : String) : Except SyntaxError Registry :=
  (Program.parse source).map ofProgram

/-- Reads a registry from the text of a JSON file. Text behind the JSON object is not looked at. -/
def parse (text : List Char) : Except Decode.Error Registry :=
  Decode.registry Json.maxDepth (Json.Node.ofText text).1

/-- The text of an error in the text of a JSON file. -/
def errorMessage (text : List Char) (e : Decode.Error) : String :=
  s!"invalid registry: {e.pathMessage text}"

/-- The JSON object that holds the record of each schema under its name. -/
def toJson (registry : Registry) : Json :=
  .object (registry.map fun (name, schema) => (name, schema.toJson))

end Registry

end AliasCheck
