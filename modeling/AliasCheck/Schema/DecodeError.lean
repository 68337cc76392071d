import AliasCheck.Json.Node
import AliasCheck.Schema
import AliasCheck.Text.Escape

/-!
# Why a registry cannot be loaded

Loading fails where the JSON text breaks down, where a value is of the wrong sort, or where a record
has the wrong fields. An error carries the path from the root of the text to the place, and the
offset at which it was noticed. An error about a record as a whole is noticed only after the record,
by whoever reads what the record is a part of; until then it has no offset.
-/

namespace AliasCheck

/-- The fields of the record of a schema. -/
inductive RecordField where
  | name | nullable | literal | properties | params | types
  deriving DecidableEq, Repr

/-- The fields of the record of a property. -/
inductive PropertyField where
  | key | type | optional
  deriving DecidableEq, Repr

namespace RecordField

/-- The fields in the order in which a list holds them. -/
def all : List RecordField := [name, nullable, literal, properties, params, types]

/-- The key of a field. -/
def toKey : RecordField → String
  | name => "name"
  | nullable => "nullable"
  | literal => "literal"
  | properties => "properties"
  | params => "params"
  | types => "types"

/-- The field with a key. -/
def ofKey? (key : String) : Option RecordField := all.find? fun f => f.toKey == key

end RecordField

namespace PropertyField

/-- The fields in the order in which a list holds them. -/
def all : List PropertyField := [key, type, optional]

/-- The key of a field. -/
def toKey : PropertyField → String
  | key => "key"
  | type => "type"
  | optional => "optional"

/-- The field with a key. -/
def ofKey? (text : String) : Option PropertyField := all.find? fun f => f.toKey == text

end PropertyField

namespace Decode

/-- A step from a value in a JSON text to one inside it. -/
inductive Segment where
  | key (text : String)
  | index (i : Nat)
  /-- Towards a key that could not be read. -/
  | unknown
  deriving DecidableEq, Repr

/-- What a decoder needs. -/
inductive Wanted where
  | string | boolean | sequence | map | schemaRecord | propertyRecord
  deriving DecidableEq, Repr

/-- The words for what is needed. -/
def Wanted.describe : Wanted → String
  | string => "a string"
  | boolean => "a boolean"
  | sequence => "a sequence"
  | map => "a map"
  | schemaRecord => "struct TypeRecord"
  | propertyRecord => "struct Property"

/-- What a decoder finds instead. -/
inductive Found where
  | null
  | boolean (value : Bool)
  | number (value : Json.Number)
  | string (text : String)
  | sequence
  | map
  deriving DecidableEq, Repr

/-- The words for what is found. -/
def Found.describe : Found → String
  | null => "null"
  | boolean true => "boolean `true`"
  | boolean false => "boolean `false`"
  | number (.integer n) => s!"integer `{String.ofList (Json.Number.integer n).write}`"
  | number (.float x) => s!"floating point `{String.ofList (Json.Number.float x).write}`"
  | string text => s!"string {quote text}"
  | sequence => "sequence"
  | map => "map"

/-- What is wrong with a JSON text that should hold schemas. -/
inductive Problem where
  /-- The text breaks down. -/
  | fault (cause : Json.Cause)
  | wrongType (found : Found) (wanted : Wanted)
  | missingField (key : String)
  | duplicateField (key : String)
  | unknownField (key : String)
  /-- A list that stands for a record ends too early. -/
  | tooShort (length : Nat) (wanted : Wanted)
  /-- A record has properties and a name that object types do not have. -/
  | misnamedObject (name : String)
  /-- A record has member types and a name that union types do not have. -/
  | misnamedUnion (name : String)
  /-- A record has more than one kind of detail. -/
  | ambiguous (name : String)
  deriving DecidableEq, Repr

/-- Keys between backquotes, separated by commas. -/
def quotedKeys (keys : List String) : String :=
  ", ".intercalate (keys.map fun key => s!"`{key}`")

/-- The text of a problem. -/
def Problem.message : Problem → String
  | fault cause => cause.message
  | wrongType found wanted => s!"invalid type: {found.describe}, expected {wanted.describe}"
  | missingField key => s!"missing field `{key}`"
  | duplicateField key => s!"duplicate field `{key}`"
  | unknownField key =>
    s!"unknown field `{key}`, expected one of {quotedKeys (RecordField.all.map RecordField.toKey)}"
  | tooShort length wanted =>
    let count := match wanted with
      | .propertyRecord => PropertyField.all.length
      | _ => RecordField.all.length
    s!"invalid length {length}, expected {wanted.describe} with {count} elements"
  | misnamedObject name =>
    s!"type `{name}` has properties but is not named `{Shape.objectName}`"
  | misnamedUnion name =>
    s!"type `{name}` has member types but is not named `{Shape.unionName}`"
  | ambiguous name =>
    let kinds := quotedKeys ["literal", "properties", "params", "types"]
    s!"type `{name}` sets more than one of {kinds}"

/-- A problem and where it is. -/
structure Error where
  /-- The way from the root of the text to the value that the problem is about. -/
  path : List Segment
  problem : Problem
  /-- The offset at which it is noticed, once it is. -/
  offset : Option Nat
  deriving DecidableEq, Repr

namespace Error

/-- A problem that is noticed at an offset. -/
def here (problem : Problem) (offset : Nat) : Error := ⟨[], problem, some offset⟩

/-- The text breaks down. -/
def ofFault (f : Json.Fault) : Error := ⟨[], .fault f.cause, some f.offset⟩

/-- The same error, seen from one step further out. -/
def under (segment : Segment) (e : Error) : Error := ⟨segment :: e.path, e.problem, e.offset⟩

/-- The error is noticed here, if it has not been noticed before. -/
def noticedAt (offset : Nat) (e : Error) : Error := ⟨e.path, e.problem, e.offset.or (some offset)⟩

/-- The text of an error in `text`, without its path. -/
def message (e : Error) (text : List Char) : String :=
  match e.offset with
  | some offset => Json.located e.problem.message text offset
  | none => e.problem.message

/-- The text of the rest of a path. -/
def writeSegments : List Segment → String
  | [] => ""
  | .index i :: rest => s!"[{i}]" ++ writeSegments rest
  | .key text :: rest => s!".{text}" ++ writeSegments rest
  | .unknown :: rest => ".?" ++ writeSegments rest

/-- The text of a path. A point stands between keys, and alone for the root. -/
def writePath : List Segment → String
  | [] => "."
  | .index i :: rest => s!"[{i}]" ++ writeSegments rest
  | .key text :: rest => text ++ writeSegments rest
  | .unknown :: rest => "?" ++ writeSegments rest

/-- The text of an error in `text`, behind its path. -/
def pathMessage (e : Error) (text : List Char) : String :=
  s!"at JSON path {writePath e.path} → {e.message text}"

end Error

end Decode
end AliasCheck
