import AliasCheck.Json.Number
import AliasCheck.Table

/-!
# JSON values

The values that documents and registries are made of. Objects keep the order of their keys.
-/

namespace AliasCheck

/-- A JSON value. -/
inductive Json where
  | null
  | bool (value : Bool)
  | number (value : Json.Number)
  | string (text : String)
  | array (items : List Json)
  | object (members : List (String × Json))
  deriving Repr

namespace Json

/-- The value under a key; only objects have keys. -/
def get? (key : String) : Json → Option Json
  | object members => Table.get? key members
  | _ => none

end Json

end AliasCheck
