import AliasCheck.Proofs.RecordGrammar

/-!
# What members leave in a record

A decoder enters the members of an object into a record, one after the other. Each member belongs to
a field of its own, so what a field holds in the end depends on the member with its key only. That
makes the record a function of the table of members, and lets the grammar, which looks members up by
their keys, be compared with what the decoder makes of a complete record.
-/

namespace AliasCheck
namespace Decode

open Json (Node IsSchema IsProperty Blank Flag Header)

/-! ## What members leave in a record -/

/-- A field of a record after the member for it, if there is one, has been entered. -/
def Fills {α : Type} (R : Json → α → Prop) : Option Json → Option α → Option α → Prop
  | none, old, new => new = old
  | some x, _, new => ∃ a, R x a ∧ new = some a

theorem exists_of_fills {α : Type} {R : Json → α → Prop} {x : Option Json} {a : α}
    (h : Fills R x none (some a)) : ∃ y, x = some y ∧ R y a := by
  cases x with
  | none => cases h
  | some y =>
    obtain ⟨a, ha, h⟩ := h
    cases h
    exact ⟨y, rfl, ha⟩

section Takes

variable {F Rec : Type} {Value : F → Type} {toKey : F → String}
  {get : Rec → (f : F) → Option (Value f)} {Holds : (f : F) → Json → Value f → Prop}

/-- The record `r'` comes of entering members into `r`, and members without a field leave no
trace. -/
def Takes (toKey : F → String) (get : Rec → (f : F) → Option (Value f))
    (Holds : (f : F) → Json → Value f → Prop) (r : Rec) (members : Table Json) (r' : Rec) : Prop :=
  ∀ f, Fills (Holds f) (Table.get? (toKey f) members) (get r f) (get r' f)

/-- The member for a field is entered first. -/
theorem takes_cons {set : Rec → (f : F) → Value f → Rec} (hkeys : Function.Injective toKey)
    (hself : ∀ r f a, get (set r f a) f = some a)
    (hother : ∀ r f a g, g ≠ f → get (set r f a) g = get r g) {r r' : Rec} {f : F} {x : Json}
    {members : Table Json} (hf : toKey f ∉ Table.names members) :
    Takes toKey get Holds r ((toKey f, x) :: members) r'
      ↔ ∃ a, Holds f x a ∧ Takes toKey get Holds (set r f a) members r' := by
  have hnone := Table.get?_eq_none.mpr hf
  have hsame : Table.get? (toKey f) ((toKey f, x) :: members) = some x := if_pos rfl
  have hskip : ∀ g, g ≠ f →
      Table.get? (toKey g) ((toKey f, x) :: members) = Table.get? (toKey g) members :=
    fun g hg => if_neg fun h => hg (hkeys h).symm
  constructor
  · intro h
    have hfield := h f
    rw [hsame] at hfield
    obtain ⟨a, ha, hnew⟩ := hfield
    refine ⟨a, ha, fun g => ?_⟩
    by_cases hg : g = f
    · subst hg
      rw [hnone, hself]
      exact hnew
    · have hrest := h g
      rw [hskip g hg] at hrest
      rwa [hother r f a g hg]
  · rintro ⟨a, ha, h⟩ g
    have hrest := h g
    by_cases hg : g = f
    · subst hg
      rw [hnone, hself] at hrest
      rw [hsame]
      exact ⟨a, ha, hrest⟩
    · rw [hother r f a g hg] at hrest
      rwa [hskip g hg]

theorem takes_nil {r r' : Rec} :
    Takes toKey get Holds r [] r' ↔ ∀ f, get r' f = get r f := Iff.rfl

theorem takes_skip {key : String} (hkey : ∀ f, toKey f ≠ key) {r r' : Rec} {x : Json}
    {members : Table Json} : Takes toKey get Holds r ((key, x) :: members) r'
      ↔ Takes toKey get Holds r members r' := by
  have hskip : ∀ f, Table.get? (toKey f) ((key, x) :: members) = Table.get? (toKey f) members :=
    fun f => if_neg fun h => hkey f h.symm
  simp only [Takes, hskip]

end Takes

/-! ## The fields of the records -/

/-- A list of records. -/
def IsList {α : Type} (R : Json → α → Prop) (x : Json) (values : List α) : Prop :=
  ∃ items, x = .array items ∧ List.Forall₂ R items values

/-- Null, or what `R` says. -/
inductive OrNull {α : Type} (R : Json → α → Prop) : Json → Option α → Prop where
  | null : OrNull R .null none
  | some {x : Json} {a : α} (h : R x a) : OrNull R x (some a)

theorem orNull_null {α : Type} {R : Json → α → Prop} (hR : ∀ a, ¬ R .null a) {o : Option α} :
    OrNull R .null o ↔ o = none := by
  constructor
  · rintro (_ | h)
    · rfl
    · exact absurd h (hR _)
  · rintro rfl
    exact .null

theorem orNull_of_ne {α : Type} {R : Json → α → Prop} {x : Json} (hx : x ≠ .null) {o : Option α} :
    OrNull R x o ↔ ∃ a, R x a ∧ o = some a := by
  constructor
  · rintro (_ | h)
    · exact absurd rfl hx
    · exact ⟨_, h, rfl⟩
  · rintro ⟨a, h, rfl⟩
    exact .some h

end Decode

namespace RecordField

open Decode

/-- What a field holds once it has been read. -/
def Value : RecordField → Type
  | name => String
  | nullable => Bool
  | literal => Option String
  | properties => Option (List Property)
  | params | types => Option (List Schema)

/-- What the member for a field may be. -/
def Holds : (f : RecordField) → Json → f.Value → Prop
  | name => fun x text => x = .string text
  | nullable => fun x b => x = .bool b
  | literal => OrNull fun x text => x = .string text
  | properties => OrNull (IsList Json.IsProperty)
  | params | types => OrNull (IsList Json.IsSchema)

theorem ofKey?_toKey (f : RecordField) : ofKey? f.toKey = some f := by
  cases f <;> decide

theorem toKey_injective : Function.Injective toKey := by
  intro f g h
  have hsame : some f = some g := by rw [← ofKey?_toKey f, h, ofKey?_toKey g]
  exact Option.some.inj hsame

theorem ofKey?_eq_none {key : String} (h : ∀ f : RecordField, f.toKey ≠ key) :
    ofKey? key = none :=
  List.find?_eq_none.mpr fun f _ hf => h f (beq_iff_eq.mp hf)

end RecordField

namespace PropertyField

/-- What a field holds once it has been read. -/
def Value : PropertyField → Type
  | key => String
  | type => Schema
  | optional => Bool

/-- What the member for a field may be. -/
def Holds : (f : PropertyField) → Json → f.Value → Prop
  | key => fun x text => x = .string text
  | type => Json.IsSchema
  | optional => fun x b => x = .bool b

theorem ofKey?_toKey (f : PropertyField) : ofKey? f.toKey = some f := by
  cases f <;> decide

theorem toKey_injective : Function.Injective toKey := by
  intro f g h
  have hsame : some f = some g := by rw [← ofKey?_toKey f, h, ofKey?_toKey g]
  exact Option.some.inj hsame

theorem ofKey?_eq_none {key : String} (h : ∀ f : PropertyField, f.toKey ≠ key) :
    ofKey? key = none :=
  List.find?_eq_none.mpr fun f _ hf => h f (beq_iff_eq.mp hf)

end PropertyField

namespace Decode

open Json (Node IsSchema IsProperty Blank Flag Header)

namespace Record

def get (r : Record) : (f : RecordField) → Option f.Value
  | .name => r.name
  | .nullable => r.nullable
  | .literal => r.literal
  | .properties => r.properties
  | .params => r.params
  | .types => r.types

def set (r : Record) : (f : RecordField) → f.Value → Record
  | .name => fun a => { r with name := some a }
  | .nullable => fun a => { r with nullable := some a }
  | .literal => fun a => { r with literal := some a }
  | .properties => fun a => { r with properties := some a }
  | .params => fun a => { r with params := some a }
  | .types => fun a => { r with types := some a }

theorem get_set_self (r : Record) (f : RecordField) (a : f.Value) : (r.set f a).get f = some a := by
  cases f <;> rfl

theorem get_set_of_ne (r : Record) (f : RecordField) (a : f.Value) (g : RecordField) (h : g ≠ f) :
    (r.set f a).get g = r.get g := by
  cases f <;> cases g <;> first | rfl | exact absurd rfl h

theorem has_eq (r : Record) (f : RecordField) : r.has f = (r.get f).isSome := by
  cases f <;> rfl

theorem ext_get {r r' : Record} (h : ∀ f, r'.get f = r.get f) : r' = r := by
  obtain ⟨name, nullable, literal, properties, params, types⟩ := r
  obtain ⟨name', nullable', literal', properties', params', types'⟩ := r'
  have hname : name' = name := h .name
  have hnullable : nullable' = nullable := h .nullable
  have hliteral : literal' = literal := h .literal
  have hproperties : properties' = properties := h .properties
  have hparams : params' = params := h .params
  have htypes : types' = types := h .types
  rw [hname, hnullable, hliteral, hproperties, hparams, htypes]

end Record

namespace PropertyRecord

def get (r : PropertyRecord) : (f : PropertyField) → Option f.Value
  | .key => r.key
  | .type => r.schema
  | .optional => r.optional

def set (r : PropertyRecord) : (f : PropertyField) → f.Value → PropertyRecord
  | .key => fun a => { r with key := some a }
  | .type => fun a => { r with schema := some a }
  | .optional => fun a => { r with optional := some a }

theorem get_set_self (r : PropertyRecord) (f : PropertyField) (a : f.Value) :
    (r.set f a).get f = some a := by
  cases f <;> rfl

theorem get_set_of_ne (r : PropertyRecord) (f : PropertyField) (a : f.Value) (g : PropertyField)
    (h : g ≠ f) : (r.set f a).get g = r.get g := by
  cases f <;> cases g <;> first | rfl | exact absurd rfl h

theorem has_eq (r : PropertyRecord) (f : PropertyField) : r.has f = (r.get f).isSome := by
  cases f <;> rfl

theorem ext_get {r r' : PropertyRecord} (h : ∀ f, r'.get f = r.get f) : r' = r := by
  obtain ⟨key, schema, optional⟩ := r
  obtain ⟨key', schema', optional'⟩ := r'
  have hkey : key' = key := h .key
  have hschema : schema' = schema := h .type
  have hoptional : optional' = optional := h .optional
  rw [hkey, hschema, hoptional]

end PropertyRecord

/-! ## Decoding one member -/

section Members

variable {node : Node} {x : Json}

theorem string_eq_ok (h : node.Denotes x) {s : String} : string node = .ok s ↔ x = .string s := by
  cases h with
  | string => simp [string, ofFaults, mapError_ok]
  | _ => simp [string]

theorem boolean_eq_ok (h : node.Denotes x) {b : Bool} : boolean node = .ok b ↔ x = .bool b := by
  cases h with
  | bool => simp [boolean]
  | _ => simp [boolean]

theorem optionalString_eq_ok (h : node.Denotes x) {text : Option String} :
    optionalString node = .ok text ↔ OrNull (fun x text => x = .string text) x text := by
  by_cases hx : x = .null
  · subst hx
    cases h
    rw [orNull_null nofun]
    exact ok_eq_ok
  · rw [orNull_of_ne hx]
    have hstring : optionalString node = (string node).map some := by
      cases h with
      | null => exact absurd rfl hx
      | _ => rfl
    rw [hstring]
    exact map_eq_ok_of fun _ => string_eq_ok h

/-- Entering a member into a record comes down to what the member is. -/
theorem recordField_eq_ok (hnode : node.Denotes x) (f : RecordField)
    {schemas : Unit → Except Error (Option (List Schema))}
    {properties : Unit → Except Error (Option (List Property))}
    (hschemas : f = .params ∨ f = .types → ∀ o, schemas () = .ok o ↔ OrNull (IsList IsSchema) x o)
    (hproperties : f = .properties →
      ∀ o, properties () = .ok o ↔ OrNull (IsList IsProperty) x o) {r r' : Record} :
    recordField r f node schemas properties = .ok r' ↔ ∃ a, f.Holds x a ∧ r' = r.set f a := by
  cases f with
  | name => exact map_eq_ok_of fun _ => string_eq_ok hnode
  | nullable => exact map_eq_ok_of fun _ => boolean_eq_ok hnode
  | literal => exact map_eq_ok_of fun _ => optionalString_eq_ok hnode
  | properties => exact map_eq_ok_of (hproperties rfl)
  | params => exact map_eq_ok_of (hschemas (.inl rfl))
  | types => exact map_eq_ok_of (hschemas (.inr rfl))

theorem propertyField_eq_ok (hnode : node.Denotes x) (f : PropertyField)
    {schema : Unit → Except Error Schema}
    (hschema : f = .type → ∀ s, schema () = .ok s ↔ IsSchema x s) {r r' : PropertyRecord} :
    propertyField r f node schema = .ok r' ↔ ∃ a, f.Holds x a ∧ r' = r.set f a := by
  cases f with
  | key => exact map_eq_ok_of fun _ => string_eq_ok hnode
  | type => exact map_eq_ok_of (hschema rfl)
  | optional => exact map_eq_ok_of fun _ => boolean_eq_ok hnode

end Members

/-! ## Complete records -/

/-- What the member for a kind of detail says: nothing, or a detail. -/
def Detail {α : Type} (R : Json → α → Prop) (members : Table Json) (key : String) :
    Option α → Prop
  | none => Blank members key
  | some a => ∃ x, Table.get? key members = some x ∧ R x a

section Details

variable {α : Type} {R : Json → α → Prop} {members : Table Json} {key : String}

theorem detail_join {o : Option (Option α)}
    (h : Fills (OrNull R) (Table.get? key members) none o) : Detail R members key o.join := by
  cases hx : Table.get? key members with
  | none =>
    rw [hx] at h
    cases h
    exact .inl hx
  | some x =>
    rw [hx] at h
    obtain ⟨a, ha, rfl⟩ := h
    cases ha with
    | null => exact .inr hx
    | some ha => exact ⟨x, hx, ha⟩

theorem exists_of_detail {a : Option α} (h : Detail R members key a) :
    ∃ o, Fills (OrNull R) (Table.get? key members) none o ∧ o.join = a := by
  cases a with
  | none =>
    rcases h with h | h
    · rw [h]
      exact ⟨none, rfl, rfl⟩
    · rw [h]
      exact ⟨some none, ⟨none, .null, rfl⟩, rfl⟩
  | some a =>
    obtain ⟨x, hx, ha⟩ := h
    rw [hx]
    exact ⟨some (some a), ⟨some a, .some ha, rfl⟩, rfl⟩

theorem flag_iff {b : Bool} : Flag members key b ↔
    ∃ o, Fills (fun x b => x = .bool b) (Table.get? key members) none o ∧ o.getD false = b := by
  constructor
  · rintro (h | ⟨h, rfl⟩)
    · exact ⟨some b, by rw [h]; exact ⟨b, rfl, rfl⟩, rfl⟩
    · exact ⟨none, by rw [h]; rfl, rfl⟩
  · rintro ⟨o, h, rfl⟩
    cases hx : Table.get? key members with
    | none =>
      rw [hx] at h
      cases h
      exact .inr ⟨hx, rfl⟩
    | some x =>
      rw [hx] at h
      obtain ⟨b, rfl, rfl⟩ := h
      exact .inl hx

end Details

section Records

variable {members : Table Json} {name : String} {nullable : Bool}

/-- Every member is for a field. -/
def Known (members : Table Json) : Prop :=
  ∀ key ∈ Table.names members, ∃ f : RecordField, f.toKey = key

theorem known_cons {f : RecordField} {x : Json} :
    Known ((f.toKey, x) :: members) ↔ Known members := by
  refine List.forall_mem_cons.trans ?_
  exact and_iff_right ⟨f, rfl⟩

theorem mem_keys_iff {key : String} :
    key ∈ ["name", "nullable", "literal", "properties", "params", "types"]
      ↔ ∃ f : RecordField, f.toKey = key := by
  constructor
  · intro h
    have hkeys : ["name", "nullable", "literal", "properties", "params", "types"]
        = RecordField.all.map RecordField.toKey := rfl
    rw [hkeys, List.mem_map] at h
    obtain ⟨f, -, hf⟩ := h
    exact ⟨f, hf⟩
  · rintro ⟨f, rfl⟩
    cases f <;> decide

/-- The header and the details of a record fill the fields of one that describes the same. -/
theorem exists_record (literal : Option String) (properties : Option (List Property))
    (params types : Option (List Schema)) (header : Header members name nullable)
    (hliteral : Detail (fun x text => x = .string text) members "literal" literal)
    (hproperties : Detail (IsList IsProperty) members "properties" properties)
    (hparams : Detail (IsList IsSchema) members "params" params)
    (htypes : Detail (IsList IsSchema) members "types" types) :
    Known members ∧
    ∃ r name', Takes RecordField.toKey Record.get RecordField.Holds .empty members r ∧
      r.name = some name' ∧ r.toSchema name' = Record.toSchema ⟨some name, some nullable,
        some literal, some properties, some params, some types⟩ name := by
  refine ⟨fun key hkey => mem_keys_iff.mp (header.known key hkey), ?_⟩
  obtain ⟨mark, hmark, rfl⟩ := flag_iff.mp header.nullable
  obtain ⟨l, hl, rfl⟩ := exists_of_detail hliteral
  obtain ⟨p, hp, rfl⟩ := exists_of_detail hproperties
  obtain ⟨g, hg, rfl⟩ := exists_of_detail hparams
  obtain ⟨u, hu, rfl⟩ := exists_of_detail htypes
  refine ⟨⟨some name, mark, l, p, g, u⟩, name, fun f => ?_, rfl, rfl⟩
  cases f with
  | name =>
    show Fills _ (Table.get? "name" members) none (some name)
    rw [header.name]
    exact ⟨name, rfl, rfl⟩
  | nullable => exact hmark
  | literal => exact hl
  | properties => exact hp
  | params => exact hg
  | types => exact hu

/-- Members that fill a record with a name are the header of a record, and its details. -/
theorem details_of_takes {r : Record} (hname : r.name = some name)
    (h : Takes RecordField.toKey Record.get RecordField.Holds .empty members r)
    (hknown : Known members) :
    Header members name (r.nullable.getD false) ∧
    Detail (fun x text => x = .string text) members "literal" r.literal.join ∧
    Detail (IsList IsProperty) members "properties" r.properties.join ∧
    Detail (IsList IsSchema) members "params" r.params.join ∧
    Detail (IsList IsSchema) members "types" r.types.join := by
  have hfield : Fills (fun x text => x = .string text) (Table.get? "name" members) none r.name :=
    h .name
  have hget : Table.get? "name" members = some (.string name) := by
    rw [hname] at hfield
    obtain ⟨_, hx, rfl⟩ := exists_of_fills hfield
    exact hx
  have header : Header members name (r.nullable.getD false) :=
    ⟨fun key hkey => mem_keys_iff.mpr (hknown key hkey), hget,
      flag_iff.mpr ⟨_, h .nullable, rfl⟩⟩
  exact ⟨header, detail_join (h .literal), detail_join (h .properties), detail_join (h .params),
    detail_join (h .types)⟩

/-- A value is the record of a schema if its members fill a record that describes the schema. -/
theorem isSchema_object_iff {s : Schema} :
    IsSchema (.object members) s ↔
      Known members ∧
      ∃ r name, Takes RecordField.toKey Record.get RecordField.Holds .empty members r ∧
        r.name = some name ∧ r.toSchema name = .ok s := by
  constructor
  · intro h
    cases h with
    | value header hblank =>
      simp only [List.forall_mem_cons] at hblank
      obtain ⟨hl, hp, hg, hu, -⟩ := hblank
      exact exists_record none none none none header hl hp hg hu
    | @literal _ _ text _ header htext hblank =>
      simp only [List.forall_mem_cons] at hblank
      obtain ⟨hp, hg, hu, -⟩ := hblank
      exact exists_record (some text) none none none header ⟨_, htext, rfl⟩ hp hg hu
    | @object _ _ _ properties header hlist hitems hblank =>
      simp only [List.forall_mem_cons] at hblank
      obtain ⟨hl, hg, hu, -⟩ := hblank
      exact exists_record none (some properties) none none header hl ⟨_, hlist, _, rfl, hitems⟩ hg
        hu
    | @generic _ _ _ _ params header hlist hitems hblank =>
      simp only [List.forall_mem_cons] at hblank
      obtain ⟨hl, hp, hu, -⟩ := hblank
      exact exists_record none none (some params) none header hl hp ⟨_, hlist, _, rfl, hitems⟩ hu
    | @union _ _ _ types header hlist hitems hblank =>
      simp only [List.forall_mem_cons] at hblank
      obtain ⟨hl, hp, hg, -⟩ := hblank
      exact exists_record none none none (some types) header hl hp hg ⟨_, hlist, _, rfl, hitems⟩
  · rintro ⟨hknown, r, name, htakes, hname, hs⟩
    obtain ⟨header, hliteral, hproperties, hparams, htypes⟩ :=
      details_of_takes hname htakes hknown
    unfold Record.toSchema at hs
    generalize r.literal.join = literal, r.properties.join = properties, r.params.join = params,
      r.types.join = types at hs hliteral hproperties hparams htypes
    have hblanks : ∀ {a b c : String}, Blank members a → Blank members b → Blank members c →
        ∀ key ∈ [a, b, c], Blank members key := by
      intro a b c ha hb hc key hkey
      simp only [List.mem_cons, List.not_mem_nil, or_false] at hkey
      rcases hkey with rfl | rfl | rfl <;> assumption
    -- More than one kind of detail is an error, and so is one under the wrong name.
    cases literal <;> cases properties <;> cases params <;> cases types
    case none.none.none.none =>
      cases hs
      exact .value header
        (List.forall_mem_cons.mpr ⟨hliteral, hblanks hproperties hparams htypes⟩)
    case some.none.none.none text =>
      obtain ⟨_, htext, rfl⟩ := hliteral
      cases hs
      exact .literal header htext (hblanks hproperties hparams htypes)
    case none.some.none.none =>
      obtain ⟨_, hlist, items, rfl, hitems⟩ := hproperties
      by_cases hobject : name = Shape.objectName
      · subst hobject
        cases hs
        exact .object header hlist hitems (hblanks hliteral hparams htypes)
      · simp only [if_neg hobject] at hs
        cases hs
    case none.none.some.none =>
      obtain ⟨_, hlist, items, rfl, hitems⟩ := hparams
      cases hs
      exact .generic header hlist hitems (hblanks hliteral hproperties htypes)
    case none.none.none.some =>
      obtain ⟨_, hlist, items, rfl, hitems⟩ := htypes
      by_cases hunion : name = Shape.unionName
      · subst hunion
        cases hs
        exact .union header hlist hitems (hblanks hliteral hproperties hparams)
      · simp only [if_neg hunion] at hs
        cases hs
    all_goals cases hs

/-- A value is the record of a property if its members fill a record that describes the property. -/
theorem isProperty_object_iff (missing : PropertyField → Problem) (stop : Nat) {p : Property} :
    IsProperty (.object members) p ↔
      ∃ r, Takes PropertyField.toKey PropertyRecord.get PropertyField.Holds .empty members r ∧
        finishProperty r missing stop = .ok p := by
  constructor
  · intro h
    cases h with
    | @mk _ key _ s _ hkey htype hschema hoptional =>
    obtain ⟨mark, hmark, rfl⟩ := flag_iff.mp hoptional
    refine ⟨⟨some key, some s, mark⟩, fun f => ?_, rfl⟩
    cases f with
    | key =>
      show Fills _ (Table.get? "key" members) none (some key)
      rw [hkey]
      exact ⟨key, rfl, rfl⟩
    | type =>
      show Fills _ (Table.get? "type" members) none (some s)
      rw [htype]
      exact ⟨s, hschema, rfl⟩
    | optional => exact hmark
  · rintro ⟨⟨key, s, mark⟩, htakes, hfinish⟩
    have hkey : Fills (fun x text => x = .string text) (Table.get? "key" members) none key :=
      htakes .key
    have htype : Fills IsSchema (Table.get? "type" members) none s := htakes .type
    cases key with
    | none => cases hfinish
    | some key =>
      cases s with
      | none => cases hfinish
      | some s =>
        cases hfinish
        obtain ⟨_, hkey, rfl⟩ := exists_of_fills hkey
        obtain ⟨_, htype, hschema⟩ := exists_of_fills htype
        exact .mk hkey htype hschema (flag_iff.mpr ⟨mark, htakes .optional, rfl⟩)

end Records

end Decode
end AliasCheck
