import AliasCheck.Schema.DecodeError
import AliasCheck.Table

/-!
# Decoding schemas

A schema is decoded from the tree of a JSON text. Its record is an object whose keys are known, or
a list of the same fields in their order. The record of a property may have further keys, which are
skipped. What fails first, from left to right, is the error.
-/

namespace AliasCheck
namespace Decode

open Json (Node Item Field Breakdown Fault)

/-! ## Records -/

/-- The fields of a schema's record that have been read. A field may be there and hold null. -/
structure Record where
  name : Option String
  nullable : Option Bool
  literal : Option (Option String)
  properties : Option (Option (List Property))
  params : Option (Option (List Schema))
  types : Option (Option (List Schema))

namespace Record

def empty : Record := ⟨none, none, none, none, none, none⟩

/-- The field has been read. -/
def has (r : Record) : RecordField → Bool
  | .name => r.name.isSome
  | .nullable => r.nullable.isSome
  | .literal => r.literal.isSome
  | .properties => r.properties.isSome
  | .params => r.params.isSome
  | .types => r.types.isSome

/-- The schema that a record with this name describes. At most one kind of detail may be given, and
properties and member types only with the name that goes with them. -/
def toSchema (r : Record) (name : String) : Except Problem Schema :=
  let shape : Except Problem Shape :=
    match r.literal.join, r.properties.join, r.params.join, r.types.join with
    | none, none, none, none => .ok (.value name)
    | some text, none, none, none => .ok (.literal name text)
    | none, some properties, none, none =>
      if name = Shape.objectName then .ok (.object properties) else .error (.misnamedObject name)
    | none, none, some params, none => .ok (.generic name params)
    | none, none, none, some types =>
      if name = Shape.unionName then .ok (.union types) else .error (.misnamedUnion name)
    | _, _, _, _ => .error (.ambiguous name)
  shape.map fun shape => ⟨r.nullable.getD false, shape⟩

end Record

/-- The fields of a property's record that have been read. -/
structure PropertyRecord where
  key : Option String
  schema : Option Schema
  optional : Option Bool

namespace PropertyRecord

def empty : PropertyRecord := ⟨none, none, none⟩

/-- The field has been read. -/
def has (r : PropertyRecord) : PropertyField → Bool
  | .key => r.key.isSome
  | .type => r.schema.isSome
  | .optional => r.optional.isSome

end PropertyRecord

/-! ## Scalars -/

/-- A result, with the faults of the JSON text as errors. -/
def ofFaults {α : Type} (result : Except Fault α) : Except Error α := result.mapError Error.ofFault

/-- The error that a value of another sort is. -/
def wrongType (wanted : Wanted) : Node → Error
  | .null stop => .here (.wrongType .null wanted) stop
  | .bool b stop => .here (.wrongType (.boolean b) wanted) stop
  | .number (.ok n) stop => .here (.wrongType (.number n) wanted) stop
  | .string (.ok text) stop => .here (.wrongType (.string text) wanted) stop
  | .array start _ _ => .here (.wrongType .sequence wanted) start
  | .object start _ _ => .here (.wrongType .map wanted) start
  | .number (.error fault) _ | .string (.error fault) _ => .ofFault fault
  | .broken breakdown => .ofFault breakdown.read

def string : Node → Except Error String
  | .string text _ => ofFaults text
  | node => .error (wrongType .string node)

def boolean : Node → Except Error Bool
  | .bool b _ => .ok b
  | node => .error (wrongType .boolean node)

/-- Null, or a string. -/
def optionalString : Node → Except Error (Option String)
  | .null _ => .ok none
  | node => (string node).map some

/-! ## Containers -/

/-- One more list or object may not be opened at `start` if `depth` is used up. -/
def tooDeep (start : Nat) : Error := .here (.fault .tooDeep) (start + 1)

/-- The offset after a list all of whose items have been read. -/
def listEnd (finish : Except Breakdown Nat) : Except Error Nat :=
  finish.mapError fun breakdown => .ofFault breakdown.read

/-- The offset after an object all of whose members have been read; a breakdown is in front of a
key. -/
def objectEnd (finish : Except Breakdown Nat) : Except Error Nat :=
  (listEnd finish).mapError (Error.under .unknown)

/-- The fault in place of the end of a list that has all the items a record can have. -/
def afterLast (fault : Fault) : Fault :=
  match fault.cause with
  | .endInValue | .noListEnd => ⟨.trailingText, fault.offset⟩
  | _ => fault

/-- The end of a list that has `count` of at most `limit` items, each of which has been read. -/
def recordListEnd (limit count : Nat) (finish : Except Breakdown Nat) : Except Error Nat :=
  finish.mapError fun breakdown =>
    .ofFault (if count = limit then afterLast breakdown.read else breakdown.read)

/-- The result of decoding a value that an object holds under a key. -/
def atKey {α : Type} (key : String) (after : Nat) (result : Except Error α) : Except Error α :=
  result.mapError fun e => (e.under (.key key)).noticedAt after

/-- The result of decoding an item of a list. -/
def atIndex {α : Type} (index after : Nat) (result : Except Error α) : Except Error α :=
  result.mapError fun e => (e.under (.index index)).noticedAt after

/-- The key of a member. -/
def keyOf (field : Except Fault String) : Except Error String :=
  (ofFaults field).mapError (Error.under .unknown)

/-- Requires the colon behind a key. -/
def colon (noColon : Option Breakdown) : Except Error Unit :=
  match noColon with
  | some breakdown => .error (.ofFault breakdown.read)
  | none => .ok ()

/-- The schema that a complete record describes; the record ends at `stop`. -/
def finishRecord (r : Record) (missing : Problem) (stop : Nat) : Except Error Schema :=
  match r.name with
  | none => .error (.here missing stop)
  | some name => (r.toSchema name).mapError fun problem => ⟨[], problem, none⟩

/-- The property that a complete record describes; the record ends at `stop`. `missing` is the
problem that the lack of a field is. -/
def finishProperty (r : PropertyRecord) (missing : PropertyField → Problem) (stop : Nat) :
    Except Error Property :=
  match r.key, r.schema with
  | none, _ => .error (.here (missing .key) stop)
  | _, none => .error (.here (missing .type) stop)
  | some key, some schema => .ok ⟨key, schema, r.optional.getD false⟩

/-- Enters one field into the record of a schema. What `node` is as a list of schemas or of
properties is worked out only if the field needs it. -/
def recordField (r : Record) (field : RecordField) (node : Node)
    (schemas : Unit → Except Error (Option (List Schema)))
    (properties : Unit → Except Error (Option (List Property))) : Except Error Record :=
  match field with
  | .name => (string node).map fun name => { r with name := some name }
  | .nullable => (boolean node).map fun b => { r with nullable := some b }
  | .literal => (optionalString node).map fun text => { r with literal := some text }
  | .properties => (properties ()).map fun ps => { r with properties := some ps }
  | .params => (schemas ()).map fun ss => { r with params := some ss }
  | .types => (schemas ()).map fun ss => { r with types := some ss }

/-- Enters one field into the record of a property. What `node` is as a schema is worked out only if
the field needs it. -/
def propertyField (r : PropertyRecord) (field : PropertyField) (node : Node)
    (schema : Unit → Except Error Schema) : Except Error PropertyRecord :=
  match field with
  | .key => (string node).map fun key => { r with key := some key }
  | .type => (schema ()).map fun s => { r with schema := some s }
  | .optional => (boolean node).map fun b => { r with optional := some b }

/-! ## Schemas -/

mutual

/-- Decodes the record of a schema, in which at most `depth` lists and objects may be open at
once. -/
def schema (depth : Nat) : Node → Except Error Schema
  | .object start fields finish =>
    match depth with
    | 0 => .error (tooDeep start)
    | depth + 1 => do
      let r ← recordFields depth .empty fields
      let stop ← objectEnd finish
      finishRecord r (.missingField RecordField.name.toKey) stop
  | .array start items finish =>
    match depth with
    | 0 => .error (tooDeep start)
    | depth + 1 => do
      let r ← recordItems depth 0 .empty items
      let stop ← recordListEnd RecordField.all.length items.length finish
      finishRecord r (.tooShort 0 .schemaRecord) stop
  | node => .error (wrongType .schemaRecord node)
  termination_by structural node => node

/-- Decodes the members of a schema's record after those that gave `r`. -/
def recordFields (depth : Nat) (r : Record) : List Field → Except Error Record
  | [] => .ok r
  | ⟨key, afterKey, noColon, node, after⟩ :: fields => do
    let key ← keyOf key
    match RecordField.ofKey? key with
    | none => .error ((Error.here (.unknownField key) afterKey).under (.key key))
    | some field =>
      if r.has field then .error (.here (.duplicateField key) afterKey)
      else do
        colon noColon
        let r ← atKey key after (recordField r field node
          (fun _ => optionalSchemas depth node) (fun _ => optionalProperties depth node))
        recordFields depth r fields
  termination_by structural fields => fields

/-- Decodes the items of a list that stands for a schema's record, from the one at `index` on. -/
def recordItems (depth index : Nat) (r : Record) : List Item → Except Error Record
  | [] => .ok r
  | ⟨start, node, after⟩ :: items =>
    match RecordField.all[index]? with
    | none => .error (.here (.fault .trailingText) (start + 1))
    | some field => do
      let r ← atIndex index after (recordField r field node
        (fun _ => optionalSchemas depth node) (fun _ => optionalProperties depth node))
      recordItems depth (index + 1) r items
  termination_by structural items => items

/-- Decodes null, or a list of schemas. -/
def optionalSchemas (depth : Nat) : Node → Except Error (Option (List Schema))
  | .null _ => .ok none
  | .array start items finish =>
    match depth with
    | 0 => .error (tooDeep start)
    | depth + 1 => do
      let schemas ← schemaItems depth 0 items
      let _ ← listEnd finish
      .ok (some schemas)
  | node => .error (wrongType .sequence node)
  termination_by structural node => node

/-- Decodes the items of a list of schemas, from the one at `index` on. -/
def schemaItems (depth index : Nat) : List Item → Except Error (List Schema)
  | [] => .ok []
  | ⟨_, node, after⟩ :: items => do
    let s ← atIndex index after (schema depth node)
    let ss ← schemaItems depth (index + 1) items
    .ok (s :: ss)
  termination_by structural items => items

/-- Decodes null, or a list of properties. -/
def optionalProperties (depth : Nat) : Node → Except Error (Option (List Property))
  | .null _ => .ok none
  | .array start items finish =>
    match depth with
    | 0 => .error (tooDeep start)
    | depth + 1 => do
      let properties ← propertyItems depth 0 items
      let _ ← listEnd finish
      .ok (some properties)
  | node => .error (wrongType .sequence node)
  termination_by structural node => node

/-- Decodes the items of a list of properties, from the one at `index` on. -/
def propertyItems (depth index : Nat) : List Item → Except Error (List Property)
  | [] => .ok []
  | ⟨_, node, after⟩ :: items => do
    let p ← atIndex index after (property depth node)
    let ps ← propertyItems depth (index + 1) items
    .ok (p :: ps)
  termination_by structural items => items

/-- Decodes the record of a property. -/
def property (depth : Nat) : Node → Except Error Property
  | .object start fields finish =>
    match depth with
    | 0 => .error (tooDeep start)
    | depth + 1 => do
      let r ← propertyFields depth .empty fields
      let stop ← objectEnd finish
      finishProperty r (fun field => .missingField field.toKey) stop
  | .array start items finish =>
    match depth with
    | 0 => .error (tooDeep start)
    | depth + 1 => do
      let r ← propertyRecordItems depth 0 .empty items
      let stop ← recordListEnd PropertyField.all.length items.length finish
      finishProperty r (fun _ => .tooShort items.length .propertyRecord) stop
  | node => .error (wrongType .propertyRecord node)
  termination_by structural node => node

/-- Decodes the members of a property's record after those that gave `r`; members with other keys
are skipped. -/
def propertyFields (depth : Nat) (r : PropertyRecord) :
    List Field → Except Error PropertyRecord
  | [] => .ok r
  | ⟨key, afterKey, noColon, node, after⟩ :: fields => do
    let key ← keyOf key
    match PropertyField.ofKey? key with
    | none =>
      colon noColon
      let _ ← (node.finish.mapError fun breakdown =>
        (Error.ofFault breakdown.skipped).under (.key key))
      propertyFields depth r fields
    | some field =>
      if r.has field then .error (.here (.duplicateField key) afterKey)
      else do
        colon noColon
        let r ← atKey key after (propertyField r field node fun _ => schema depth node)
        propertyFields depth r fields
  termination_by structural fields => fields

/-- Decodes the items of a list that stands for a property's record, from the one at `index`
on. -/
def propertyRecordItems (depth index : Nat) (r : PropertyRecord) :
    List Item → Except Error PropertyRecord
  | [] => .ok r
  | ⟨start, node, after⟩ :: items =>
    match PropertyField.all[index]? with
    | none => .error (.here (.fault .trailingText) (start + 1))
    | some field => do
      let r ← atIndex index after (propertyField r field node fun _ => schema depth node)
      propertyRecordItems depth (index + 1) r items
  termination_by structural items => items

end

/-! ## Registries -/

/-- Decodes the members of a registry after those in `table`. -/
def registryFields (depth : Nat) (table : Table Schema) :
    List Field → Except Error (Table Schema)
  | [] => .ok table
  | ⟨key, _, noColon, node, after⟩ :: fields => do
    let key ← keyOf key
    colon noColon
    let s ← atKey key after (schema depth node)
    registryFields depth (Table.insert key s table) fields

/-- Decodes a registry: an object that holds the record of each schema under its name. -/
def registry (depth : Nat) : Node → Except Error (Table Schema)
  | .object start fields finish =>
    match depth with
    | 0 => .error (tooDeep start)
    | depth + 1 => do
      let table ← registryFields depth [] fields
      let _ ← objectEnd finish
      .ok table
  | node => .error (wrongType .map node)

end Decode

/-- Reads a text that holds the record of one schema and nothing else. -/
def Schema.parse (text : List Char) : Except Decode.Error Schema := do
  let (node, after) := Json.Node.ofText text
  let s ← Decode.schema Json.maxDepth node
  match Json.trailing? after with
  | some fault => .error (.ofFault fault)
  | none => .ok s

end AliasCheck
