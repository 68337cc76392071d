/-!
# Types as they are written

A type term is the tree of a type in an alias declaration, close to the text: it keeps the raw text
of literals, the difference between `Name` and `Name<>`, and every form that the language has, also
those that no document can be checked against.
-/

namespace AliasCheck

/-- The types that have a word of their own. -/
inductive Keyword where
  | string | number | boolean | any | mixed | void | null
  deriving DecidableEq, Repr

mutual

/-- A type as an alias declaration writes it. -/
inductive TypeTerm where
  /-- Members between braces; `exact` says that the braces have bars inside. -/
  | object (members : List Member) (exact : Bool)
  /-- A name without arguments. The segments of a qualified name are joined by points. -/
  | named (name : String)
  /-- A name with the arguments that stand between angle brackets after it. -/
  | applied (name : String) (args : List TypeTerm)
  /-- A type after a question mark. -/
  | nullable (inner : TypeTerm)
  /-- A string, with its text as written. -/
  | stringLiteral (value raw : String)
  /-- A number as written, with its sign. -/
  | numberLiteral (raw : String)
  | booleanLiteral (value : Bool)
  | keyword (word : Keyword)
  | union (members : List TypeTerm)
  | intersection (members : List TypeTerm)
  | tuple (items : List TypeTerm)
  | function (params : List TypeTerm) (returns : TypeTerm)
  /-- The type of the variable of that name. -/
  | typeOf (name : String)
  /-- The type that is left to be inferred. -/
  | existential

/-- A member of an object type that has a key. -/
structure Member where
  /-- The key, without quotes. -/
  key : String
  /-- The type of the property; a function type for a method. -/
  value : TypeTerm
  /-- The key may be left out of a value. -/
  optional : Bool

end

namespace TypeTerm

/-- The name of a term's form. -/
def form : TypeTerm → String
  | object .. => "Object"
  | named _ | applied .. => "Generic"
  | nullable _ => "Nullable"
  | stringLiteral .. => "StringLiteral"
  | numberLiteral _ => "NumberLiteral"
  | booleanLiteral _ => "BooleanLiteral"
  | keyword .string => "String"
  | keyword .number => "Number"
  | keyword .boolean => "Boolean"
  | keyword .any => "Any"
  | keyword .mixed => "Mixed"
  | keyword .void => "Void"
  | keyword .null => "NullLiteral"
  | union _ => "Union"
  | intersection _ => "Intersection"
  | tuple _ => "Tuple"
  | function .. => "Function"
  | typeOf _ => "Typeof"
  | existential => "Exists"

/-- The name by which syntax trees of the language call a node of this form. -/
def nodeName (t : TypeTerm) : String := t.form ++ "TypeAnnotation"

end TypeTerm

end AliasCheck
