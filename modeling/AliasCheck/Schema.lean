/-!
# Schemas

A schema is what remains of a written type once everything that no document can show is gone: a
name, a mark that allows null, and at most one of four kinds of detail. Only the schemas of object
and union types have their name fixed by their shape, so those shapes carry none.
-/

namespace AliasCheck

mutual

/-- A type reduced to what documents are checked against. -/
structure Schema where
  /-- Null is allowed too, and so is leaving the value out. -/
  nullable : Bool
  /-- What the type is, null aside. -/
  shape : Shape

/-- The name of a type and the detail that goes with it. -/
inductive Shape where
  /-- A name and nothing else. -/
  | value (name : String)
  /-- Exactly one string. -/
  | literal (name text : String)
  /-- Properties, in the order of their declaration. -/
  | object (properties : List Property)
  /-- A name that is applied to types. -/
  | generic (name : String) (params : List Schema)
  /-- One of several types. -/
  | union (members : List Schema)

/-- A property of an object type. -/
structure Property where
  /-- The key under which a document holds the property. -/
  key : String
  /-- The type of the property. -/
  schema : Schema
  /-- The declaration marks the key as one that may be left out. -/
  optional : Bool

end

/-- The name that all object types have. -/
def Shape.objectName : String := "Object"

/-- The name that all union types have. -/
def Shape.unionName : String := "Union"

/-- The name of a type. -/
def Shape.name : Shape → String
  | value name | literal name _ | generic name _ => name
  | object _ => objectName
  | union _ => unionName

namespace Schema

/-! ## Building schemas -/

/-- A name and nothing else. -/
def value (name : String) : Schema := ⟨false, .value name⟩

def object (properties : List Property) : Schema := ⟨false, .object properties⟩

def generic (name : String) (params : List Schema) : Schema := ⟨false, .generic name params⟩

def union (members : List Schema) : Schema := ⟨false, .union members⟩

/-- The same name and mark, but exactly one string. -/
def withLiteral (s : Schema) (text : String) : Schema := ⟨s.nullable, .literal s.shape.name text⟩

/-- The same type with null allowed. -/
def orNull (s : Schema) : Schema := ⟨true, s.shape⟩

/-! ## Looking into schemas -/

def name (s : Schema) : String := s.shape.name

def literal? (s : Schema) : Option String :=
  match s.shape with
  | .literal _ text => some text
  | _ => none

def properties? (s : Schema) : Option (List Property) :=
  match s.shape with
  | .object properties => some properties
  | _ => none

def params? (s : Schema) : Option (List Schema) :=
  match s.shape with
  | .generic _ params => some params
  | _ => none

def members? (s : Schema) : Option (List Schema) :=
  match s.shape with
  | .union members => some members
  | _ => none

def isObject (s : Schema) : Bool := s.properties?.isSome

/-- The schemas that stand directly inside one. -/
def children (s : Schema) : List Schema :=
  match s.shape with
  | .value _ | .literal .. => []
  | .object properties => properties.map Property.schema
  | .generic _ schemas | .union schemas => schemas

end Schema

/-! ## Equality -/

mutual

/-- Decides whether two schemas are equal. -/
def Schema.decEq : (a b : Schema) → Decidable (a = b)
  | ⟨n, s⟩, ⟨m, t⟩ =>
    have := Shape.decEq s t
    decidable_of_iff (n = m ∧ s = t) (by simp)
  termination_by structural a => a

/-- Decides whether two shapes are equal. -/
def Shape.decEq : (a b : Shape) → Decidable (a = b)
  | .value n, b =>
    match b with
    | .value m => decidable_of_iff (n = m) (by simp)
    | .literal .. | .object _ | .generic .. | .union _ => isFalse (by simp)
  | .literal n s, b =>
    match b with
    | .literal m t => decidable_of_iff (n = m ∧ s = t) (by simp)
    | .value _ | .object _ | .generic .. | .union _ => isFalse (by simp)
  | .object ps, b =>
    match b with
    | .object qs =>
      have := Property.decEqList ps qs
      decidable_of_iff (ps = qs) (by simp)
    | .value _ | .literal .. | .generic .. | .union _ => isFalse (by simp)
  | .generic n ts, b =>
    match b with
    | .generic m us =>
      have := Schema.decEqList ts us
      decidable_of_iff (n = m ∧ ts = us) (by simp)
    | .value _ | .literal .. | .object _ | .union _ => isFalse (by simp)
  | .union ts, b =>
    match b with
    | .union us =>
      have := Schema.decEqList ts us
      decidable_of_iff (ts = us) (by simp)
    | .value _ | .literal .. | .object _ | .generic .. => isFalse (by simp)
  termination_by structural a => a

/-- Decides whether two properties are equal. -/
def Property.decEq : (a b : Property) → Decidable (a = b)
  | ⟨k, s, o⟩, ⟨l, t, p⟩ =>
    have := Schema.decEq s t
    decidable_of_iff (k = l ∧ s = t ∧ o = p) (by simp)
  termination_by structural a => a

/-- Decides whether two lists of schemas are equal. -/
def Schema.decEqList : (a b : List Schema) → Decidable (a = b)
  | [], [] => isTrue rfl
  | s :: ss, t :: ts =>
    have := Schema.decEq s t
    have := Schema.decEqList ss ts
    decidable_of_iff (s = t ∧ ss = ts) (by simp)
  | [], _ :: _ | _ :: _, [] => isFalse (by simp)
  termination_by structural a => a

/-- Decides whether two lists of properties are equal. -/
def Property.decEqList : (a b : List Property) → Decidable (a = b)
  | [], [] => isTrue rfl
  | p :: ps, q :: qs =>
    have := Property.decEq p q
    have := Property.decEqList ps qs
    decidable_of_iff (p = q ∧ ps = qs) (by simp)
  | [], _ :: _ | _ :: _, [] => isFalse (by simp)
  termination_by structural a => a

end

instance : DecidableEq Schema := Schema.decEq

end AliasCheck
