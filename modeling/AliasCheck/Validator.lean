import AliasCheck.Check
import AliasCheck.Registry

/-!
# Validators

A validator is compiled from the schema of an object type and a table of checks by name: one check
for each property, which is applied to what a document holds under the property's key. A property
that is missing is refused unless its type allows null; in neither case is its check asked.
-/

namespace AliasCheck

/-- Why a schema cannot be compiled. -/
inductive ConfigError where
  /-- No check goes with the name of a property's type. -/
  | missingCheck (key name : String)
  /-- The schema is not that of an object type. -/
  | notAnObject (name : String)
  deriving DecidableEq, Repr

/-- The text of an error. -/
def ConfigError.message : ConfigError → String
  | missingCheck key name => s!"could not find validator for type `{name}` (property `{key}`)"
  | notAnObject name => s!"type `{name}` is not an object type"

/-- A check of what stands under a key. -/
structure KeyedCheck where
  key : String
  check : Check

/-- A property of a document that was refused. -/
structure KeyedError where
  key : String
  /-- What the document holds under the key, if anything. -/
  value : Option Json
  reason : String

namespace KeyedError

/-- The text of an error. -/
def display (e : KeyedError) : String := s!"{e.key}: {e.reason}"

/-- The JSON object of an error. -/
def toJson (e : KeyedError) : Json :=
  .object (("key", .string e.key) :: (e.value.toList.map fun value => ("value", value))
    ++ [("error", .string e.reason)])

end KeyedError

/-- The checks for the properties of an object type, in the order of their declaration. -/
abbrev Validator := List KeyedCheck

namespace Validator

/-- The checks that are in force: the builtin ones replace others of the same name. -/
def inForce (checks : Table Check) : Table Check := Table.merge checks Check.builtins

/-- A check that is asked only about values that are there and are not null. -/
def guarded (nullable : Bool) (check : Check) : Check := fun value =>
  if isPresent value then check value
  else if nullable then .ok ()
  else .error Check.missing

/-- The check for a property. -/
def compileProperty (checks : Table Check) (p : Property) : Except ConfigError KeyedCheck :=
  match Table.get? p.schema.name checks with
  | some check => .ok ⟨p.key, guarded p.schema.nullable check⟩
  | none => .error (.missingCheck p.key p.schema.name)

/-- The validator for a schema. -/
def compile (checks : Table Check) (s : Schema) : Except ConfigError Validator :=
  match s.properties? with
  | some properties => properties.mapM (compileProperty (inForce checks))
  | none => .error (.notAnObject s.name)

/-- The validators for all object types of a registry, under their names. -/
def compileAll (checks : Table Check) (registry : Registry) :
    Except ConfigError (Table Validator) :=
  (registry.filter fun entry => entry.2.isObject).mapM fun (name, s) =>
    (compile checks s).map fun v => (name, v)

/-- What a check finds in a document. A reason without words counts as none. -/
def errorOf (document : Json) (c : KeyedCheck) : Option KeyedError :=
  let value := document.get? c.key
  match c.check value with
  | .ok () => none
  | .error reason => if reason.isEmpty then none else some ⟨c.key, value, reason⟩

/-- The errors of a document, in the order of the checks. -/
def validate (v : Validator) (document : Json) : List KeyedError :=
  v.filterMap (errorOf document)

end Validator

end AliasCheck
