import AliasCheck.Proofs.DecodeRecord
import AliasCheck.Proofs.Documents

/-!
# The grammar of records

What a JSON value has to be for a decoder to take it as the record of a schema or of a property, and
the schema or property that it then describes.
-/

namespace AliasCheck
namespace Json

/-- The member under a key is left out or null. -/
def Blank (members : Table Json) (key : String) : Prop :=
  Table.get? key members = none ∨ Table.get? key members = some .null

/-- The member under a key is this Boolean, where false may be left out. -/
def Flag (members : Table Json) (key : String) (b : Bool) : Prop :=
  Table.get? key members = some (.bool b) ∨ (Table.get? key members = none ∧ b = false)

/-- The members of a schema's record that do not depend on the sort of the schema. -/
structure Header (members : Table Json) (name : String) (nullable : Bool) : Prop where
  known : ∀ key ∈ Table.names members,
    key ∈ ["name", "nullable", "literal", "properties", "params", "types"]
  name : Table.get? "name" members = some (.string name)
  nullable : Flag members "nullable" nullable

mutual

/-- The value is the record of a schema. -/
inductive IsSchema : Json → Schema → Prop where
  | value {members : Table Json} {name : String} {nullable : Bool}
      (header : Header members name nullable)
      (hblank : ∀ key ∈ ["literal", "properties", "params", "types"], Blank members key) :
      IsSchema (.object members) ⟨nullable, .value name⟩
  | literal {members : Table Json} {name text : String} {nullable : Bool}
      (header : Header members name nullable)
      (htext : Table.get? "literal" members = some (.string text))
      (hblank : ∀ key ∈ ["properties", "params", "types"], Blank members key) :
      IsSchema (.object members) ⟨nullable, .literal name text⟩
  | object {members : Table Json} {nullable : Bool} {items : List Json}
      {properties : List Property} (header : Header members "Object" nullable)
      (hlist : Table.get? "properties" members = some (.array items))
      (hitems : List.Forall₂ IsProperty items properties)
      (hblank : ∀ key ∈ ["literal", "params", "types"], Blank members key) :
      IsSchema (.object members) ⟨nullable, .object properties⟩
  | generic {members : Table Json} {name : String} {nullable : Bool} {items : List Json}
      {params : List Schema} (header : Header members name nullable)
      (hlist : Table.get? "params" members = some (.array items))
      (hitems : List.Forall₂ IsSchema items params)
      (hblank : ∀ key ∈ ["literal", "properties", "types"], Blank members key) :
      IsSchema (.object members) ⟨nullable, .generic name params⟩
  | union {members : Table Json} {nullable : Bool} {items : List Json} {types : List Schema}
      (header : Header members "Union" nullable)
      (hlist : Table.get? "types" members = some (.array items))
      (hitems : List.Forall₂ IsSchema items types)
      (hblank : ∀ key ∈ ["literal", "properties", "params"], Blank members key) :
      IsSchema (.object members) ⟨nullable, .union types⟩

/-- The value is the record of a property. -/
inductive IsProperty : Json → Property → Prop where
  | mk {members : Table Json} {key : String} {x : Json} {s : Schema} {optional : Bool}
      (hkey : Table.get? "key" members = some (.string key))
      (htype : Table.get? "type" members = some x) (hschema : IsSchema x s)
      (hoptional : Flag members "optional" optional) :
      IsProperty (.object members) ⟨key, s, optional⟩

end

/-- The value is that of a registry: it holds the records of the schemas under their names and in
their order. -/
def IsRegistry (x : Json) (r : Table Schema) : Prop :=
  ∃ members, x = .object members ∧
    List.Forall₂ (fun m entry => entry.1 = m.1 ∧ IsSchema m.2 entry.2) members r

/-- An object that holds the record of some schema under each key is the value of a registry. -/
theorem exists_isRegistry_iff {x : Json} : (∃ r, IsRegistry x r) ↔
    ∃ members, x = .object members ∧ ∀ m ∈ members, ∃ s, IsSchema m.2 s := by
  have hrecords : ∀ members : Table Json,
      (∃ r : Table Schema, List.Forall₂ (fun m entry => entry.1 = m.1 ∧ IsSchema m.2 entry.2)
        members r) ↔ ∀ m ∈ members, ∃ s, IsSchema m.2 s := by
    intro members
    rw [exists_forall₂_iff]
    refine forall₂_congr fun m _ => ?_
    constructor
    · rintro ⟨entry, -, hs⟩
      exact ⟨entry.2, hs⟩
    · rintro ⟨s, hs⟩
      exact ⟨(m.1, s), rfl, hs⟩
  constructor
  · rintro ⟨r, members, rfl, h⟩
    exact ⟨members, rfl, (hrecords members).mp ⟨r, h⟩⟩
  · rintro ⟨members, rfl, h⟩
    obtain ⟨r, hr⟩ := (hrecords members).mpr h
    exact ⟨r, members, rfl, hr⟩

/-- What is wanted at a place in a document. -/
inductive Place where
  | registry | schema | property | schemas | properties
  /-- Nothing that has records inside. -/
  | other
  deriving DecidableEq, Repr

/-- The place under a key of an object. -/
def Place.under (key : String) : Place → Place
  | registry => schema
  | schema =>
    if key = "params" ∨ key = "types" then schemas
    else if key = "properties" then properties
    else other
  | property => if key = "type" then schema else other
  | schemas | properties | other => other

/-- The place of the items of a list. -/
def Place.item : Place → Place
  | schemas => schema
  | properties => property
  | registry | schema | property | other => other

mutual

/-- In a value at a place, no list stands where a record is wanted. -/
def recordsAreObjects (place : Place) : Json → Bool
  | array items => place != .schema && place != .property && itemsAreObjects place.item items
  | object members => membersAreObjects place members
  | null | bool _ | number _ | string _ => true
  termination_by structural x => x

/-- The same for the items of a list, each of which is at the place. -/
def itemsAreObjects (place : Place) : List Json → Bool
  | [] => true
  | x :: xs => recordsAreObjects place x && itemsAreObjects place xs
  termination_by structural xs => xs

/-- The same for the members of an object at the place. -/
def membersAreObjects (place : Place) : List (String × Json) → Bool
  | [] => true
  | (key, x) :: ms => recordsAreObjects (place.under key) x && membersAreObjects place ms
  termination_by structural ms => ms

end

end Json
end AliasCheck
