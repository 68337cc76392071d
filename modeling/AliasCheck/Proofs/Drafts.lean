import AliasCheck.Proofs.RegistryRoundTrip
import Mathlib.Logic.Relation

/-!
# Types with free names

A schema cannot hold properties under a name that object types do not have, since its shape fixes
the name. A draft can: its name, its mark and its detail have nothing to do with each other. The
builders of drafts are those of schemas, and their decoder is that of schemas except that it keeps
the name which stands in the record. Whatever these bring about is the draft of a schema. So the
names of drafts are in order at every depth, and a draft that has been written down is read back as
it was.
-/

namespace AliasCheck

mutual

/-- A type whose name may be any. -/
structure Draft where
  name : String
  nullable : Bool
  detail : DraftDetail

/-- What a type is made of. -/
inductive DraftDetail where
  | nothing
  | literal (text : String)
  | properties (properties : List DraftProperty)
  | params (params : List Draft)
  | members (members : List Draft)

/-- A property whose type may have any name. -/
structure DraftProperty where
  key : String
  type : Draft
  optional : Bool

end

/-! ## Building drafts -/

namespace Draft

def value (name : String) : Draft := ⟨name, false, .nothing⟩

def object (properties : List DraftProperty) : Draft :=
  ⟨Shape.objectName, false, .properties properties⟩

def generic (name : String) (params : List Draft) : Draft := ⟨name, false, .params params⟩

def union (members : List Draft) : Draft := ⟨Shape.unionName, false, .members members⟩

/-- The same name and mark, but exactly one string. -/
def withLiteral (d : Draft) (text : String) : Draft := ⟨d.name, d.nullable, .literal text⟩

/-- The same type with null allowed. -/
def orNull (d : Draft) : Draft := ⟨d.name, true, d.detail⟩

/-- The drafts that stand directly inside one. -/
def children (d : Draft) : List Draft :=
  match d.detail with
  | .nothing | .literal _ => []
  | .properties properties => properties.map DraftProperty.type
  | .params drafts | .members drafts => drafts

/-- One draft stands somewhere inside another one or is that one. -/
def Holds : Draft → Draft → Prop := Relation.ReflTransGen fun d e => e ∈ d.children

/-- Properties and member types stand under their names. -/
structure WellNamed (d : Draft) : Prop where
  object : ∀ properties, d.detail = .properties properties → d.name = Shape.objectName
  union : ∀ members, d.detail = .members members → d.name = Shape.unionName

end Draft

/-! ## The drafts of schemas -/

mutual

def Schema.draft : Schema → Draft
  | ⟨nullable, shape⟩ => ⟨shape.name, nullable, shape.draftDetail⟩
  termination_by structural s => s

def Shape.draftDetail : Shape → DraftDetail
  | .value _ => .nothing
  | .literal _ text => .literal text
  | .object properties => .properties (Property.drafts properties)
  | .generic _ params => .params (Schema.drafts params)
  | .union members => .members (Schema.drafts members)
  termination_by structural s => s

def Property.draft : Property → DraftProperty
  | ⟨key, schema, optional⟩ => ⟨key, schema.draft, optional⟩
  termination_by structural p => p

def Schema.drafts : List Schema → List Draft
  | [] => []
  | s :: ss => s.draft :: Schema.drafts ss
  termination_by structural ss => ss

def Property.drafts : List Property → List DraftProperty
  | [] => []
  | p :: ps => p.draft :: Property.drafts ps
  termination_by structural ps => ps

end

/-! ## Writing drafts -/

mutual

/-- The record of a draft. -/
def Draft.toJson : Draft → Json
  | ⟨name, nullable, detail⟩ =>
    .object (("name", .string name)
      :: ((if nullable then [("nullable", .bool true)] else []) ++ detail.fields))
  termination_by structural d => d

/-- The field that holds a detail, if there is any. -/
def DraftDetail.fields : DraftDetail → List (String × Json)
  | .nothing => []
  | .literal text => [("literal", .string text)]
  | .properties properties => [("properties", .array (DraftProperty.toJsonList properties))]
  | .params params => [("params", .array (Draft.toJsonList params))]
  | .members members => [("types", .array (Draft.toJsonList members))]
  termination_by structural d => d

/-- The record of a property. -/
def DraftProperty.toJson : DraftProperty → Json
  | ⟨key, type, optional⟩ =>
    .object (("key", .string key) :: ("type", type.toJson)
      :: (if optional then [("optional", .bool true)] else []))
  termination_by structural p => p

/-- The records of drafts. -/
def Draft.toJsonList : List Draft → List Json
  | [] => []
  | d :: ds => d.toJson :: Draft.toJsonList ds
  termination_by structural ds => ds

/-- The records of properties. -/
def DraftProperty.toJsonList : List DraftProperty → List Json
  | [] => []
  | p :: ps => p.toJson :: DraftProperty.toJsonList ps
  termination_by structural ps => ps

end

mutual

/-- The draft of a schema has the record of the schema. -/
theorem Schema.toJson_draft (s : Schema) : s.draft.toJson = s.toJson := by
  obtain ⟨nullable, shape⟩ := s
  rw [Schema.draft, Draft.toJson, Schema.toJson, Shape.fields_draftDetail shape]

theorem Shape.fields_draftDetail (shape : Shape) : shape.draftDetail.fields = shape.details := by
  match shape with
  | .value _ => rfl
  | .literal .. => rfl
  | .object properties =>
    rw [Shape.draftDetail, DraftDetail.fields, Shape.details, Property.toJsonList_drafts properties]
  | .generic _ params =>
    rw [Shape.draftDetail, DraftDetail.fields, Shape.details, Schema.toJsonList_drafts params]
  | .union members =>
    rw [Shape.draftDetail, DraftDetail.fields, Shape.details, Schema.toJsonList_drafts members]

theorem Property.toJson_draft (p : Property) : p.draft.toJson = p.toJson := by
  obtain ⟨key, s, optional⟩ := p
  rw [Property.draft, DraftProperty.toJson, Property.toJson, Schema.toJson_draft s]

theorem Schema.toJsonList_drafts (ss : List Schema) :
    Draft.toJsonList (Schema.drafts ss) = Schema.toJsonList ss := by
  match ss with
  | [] => rfl
  | s :: ss =>
    rw [Schema.drafts, Draft.toJsonList, Schema.toJsonList, Schema.toJson_draft s,
      Schema.toJsonList_drafts ss]

theorem Property.toJsonList_drafts (ps : List Property) :
    DraftProperty.toJsonList (Property.drafts ps) = Property.toJsonList ps := by
  match ps with
  | [] => rfl
  | p :: ps =>
    rw [Property.drafts, DraftProperty.toJsonList, Property.toJsonList, Property.toJson_draft p,
      Property.toJsonList_drafts ps]

end

theorem Schema.drafts_eq_map (ss : List Schema) : Schema.drafts ss = ss.map Schema.draft := by
  induction ss with
  | nil => rfl
  | cons s ss ih => rw [Schema.drafts, ih, List.map_cons]

theorem Property.drafts_eq_map (ps : List Property) :
    Property.drafts ps = ps.map Property.draft := by
  induction ps with
  | nil => rfl
  | cons p ps ih => rw [Property.drafts, ih, List.map_cons]

/-! ## Decoding drafts -/

/-- The draft that a record describes: it has the name of the record, which is only compared with
those of object and union types. -/
def Decode.Record.toDraft (r : Decode.Record) (name : String) : Except Decode.Problem Draft :=
  let detail : Except Decode.Problem DraftDetail :=
    match r.literal.join, r.properties.join, r.params.join, r.types.join with
    | none, none, none, none => .ok .nothing
    | some text, none, none, none => .ok (.literal text)
    | none, some properties, none, none =>
      if name = Shape.objectName then .ok (.properties (Property.drafts properties))
      else .error (.misnamedObject name)
    | none, none, some params, none => .ok (.params (Schema.drafts params))
    | none, none, none, some types =>
      if name = Shape.unionName then .ok (.members (Schema.drafts types))
      else .error (.misnamedUnion name)
    | _, _, _, _ => .error (.ambiguous name)
  detail.map fun detail => ⟨name, r.nullable.getD false, detail⟩

/-- The draft of a decoded schema is the one that its record describes. -/
theorem Decode.Record.map_draft_toSchema (r : Decode.Record) (name : String) :
    (r.toSchema name).map Schema.draft = r.toDraft name := by
  unfold toSchema toDraft
  generalize r.literal.join = literal, r.properties.join = properties, r.params.join = params,
    r.types.join = types
  -- Only properties and member types ask for a name, and only when they stand alone.
  cases literal <;> cases properties <;> cases params <;> cases types
  case none.some.none.none =>
    by_cases hname : name = Shape.objectName
    · subst hname
      rfl
    · simp only [if_neg hname]
      rfl
  case none.none.none.some =>
    by_cases hname : name = Shape.unionName
    · subst hname
      rfl
    · simp only [if_neg hname]
      rfl
  all_goals rfl

namespace Decode

open Json (Node)

/-- The draft that a complete record describes; the record ends at `stop`. -/
def finishDraft (r : Record) (missing : Problem) (stop : Nat) : Except Error Draft :=
  match r.name with
  | none => .error (.here missing stop)
  | some name => (r.toDraft name).mapError fun problem => ⟨[], problem, none⟩

/-- Decodes the record of a draft, which keeps the name that the record gives. -/
def draft (depth : Nat) : Node → Except Error Draft
  | .object start fields finish =>
    match depth with
    | 0 => .error (tooDeep start)
    | depth + 1 => do
      let r ← recordFields depth .empty fields
      let stop ← objectEnd finish
      finishDraft r (.missingField RecordField.name.toKey) stop
  | .array start items finish =>
    match depth with
    | 0 => .error (tooDeep start)
    | depth + 1 => do
      let r ← recordItems depth 0 .empty items
      let stop ← recordListEnd RecordField.all.length items.length finish
      finishDraft r (.tooShort 0 .schemaRecord) stop
  | node => .error (wrongType .schemaRecord node)

theorem finishDraft_eq (r : Record) (missing : Problem) (stop : Nat) :
    finishDraft r missing stop = (finishRecord r missing stop).map Schema.draft := by
  rw [finishDraft, finishRecord]
  cases r.name with
  | none => rfl
  | some name =>
    simp only [← r.map_draft_toSchema name]
    cases r.toSchema name <;> rfl

/-- Nothing is lost where the name of a record is only kept as far as its shape leaves it open: the
decoder of schemas brings about the drafts that keep the names of their records. -/
theorem draft_eq (depth : Nat) (node : Node) :
    draft depth node = (schema depth node).map Schema.draft := by
  have hfinish (read : Except Error Record) (stop : Except Error Nat)
      (missing : Problem) : (do finishDraft (← read) missing (← stop))
        = (do finishRecord (← read) missing (← stop)).map Schema.draft := by
    cases read with
    | error e => rfl
    | ok r =>
      cases stop with
      | error e => rfl
      | ok stop => exact finishDraft_eq r missing stop
  cases node with
  | object start fields finish =>
    cases depth with
    | zero => rfl
    | succ depth => exact hfinish (recordFields depth .empty fields) _ _
  | array start items finish =>
    cases depth with
    | zero => rfl
    | succ depth => exact hfinish (recordItems depth 0 .empty items) _ _
  | _ => rfl

/-- From a tree of the record of a schema its draft is decoded. -/
theorem draft_record (s : Schema) {node : Node} {depth : Nat} (hnode : node.Denotes s.toJson)
    (hdepth : s.toJson.nesting ≤ depth) : draft depth node = .ok s.draft := by
  have hdecodes := schema_record s hnode depth
  rw [Within, if_pos hdepth] at hdecodes
  rw [draft_eq, hdecodes]
  rfl

end Decode

namespace Draft

/-! ## What can be brought about -/

/-- A draft that comes from the builders, from inside another one or from the decoder. -/
inductive Built : Draft → Prop where
  | value (name : String) : Built (value name)
  | object {properties : List DraftProperty} (h : ∀ p ∈ properties, Built p.type) :
      Built (object properties)
  | generic (name : String) {params : List Draft} (h : ∀ d ∈ params, Built d) :
      Built (generic name params)
  | union {members : List Draft} (h : ∀ d ∈ members, Built d) : Built (union members)
  | withLiteral {d : Draft} (h : Built d) (text : String) : Built (d.withLiteral text)
  | orNull {d : Draft} (h : Built d) : Built d.orNull
  | child {d e : Draft} (h : Built d) (he : e ∈ d.children) : Built e
  | decoded {depth : Nat} {node : Json.Node} {d : Draft} (h : Decode.draft depth node = .ok d) :
      Built d

theorem children_draft (s : Schema) : s.draft.children = s.children.map Schema.draft := by
  obtain ⟨nullable, shape⟩ := s
  cases shape with
  | value name => rfl
  | literal name text => rfl
  | object properties =>
    show (Property.drafts properties).map DraftProperty.type
      = (properties.map Property.schema).map Schema.draft
    rw [Property.drafts_eq_map, List.map_map, List.map_map]
    refine List.map_congr_left fun p _ => ?_
    obtain ⟨key, s, optional⟩ := p
    rfl
  | generic name params => exact Schema.drafts_eq_map params
  | union members => exact Schema.drafts_eq_map members

/-- The drafts of a list that are all drafts of schemas are those of a list of schemas. -/
theorem exists_drafts {drafts : List Draft} (h : ∀ d ∈ drafts, ∃ s : Schema, s.draft = d) :
    ∃ ss, Schema.drafts ss = drafts := by
  induction drafts with
  | nil => exact ⟨[], rfl⟩
  | cons d drafts ih =>
    rw [List.forall_mem_cons] at h
    obtain ⟨⟨s, rfl⟩, hrest⟩ := h
    obtain ⟨ss, rfl⟩ := ih hrest
    exact ⟨s :: ss, rfl⟩

theorem exists_property_drafts {properties : List DraftProperty}
    (h : ∀ p ∈ properties, ∃ s : Schema, s.draft = p.type) :
    ∃ ps, Property.drafts ps = properties := by
  induction properties with
  | nil => exact ⟨[], rfl⟩
  | cons p properties ih =>
    rw [List.forall_mem_cons] at h
    obtain ⟨⟨s, hs⟩, hrest⟩ := h
    obtain ⟨ps, rfl⟩ := ih hrest
    obtain ⟨key, type, optional⟩ := p
    cases hs
    exact ⟨⟨key, s, optional⟩ :: ps, rfl⟩

/-- Every step leads from drafts of schemas to the draft of a schema. -/
theorem Built.exists_schema {d : Draft} (h : Built d) : ∃ s : Schema, s.draft = d := by
  induction h with
  | value name => exact ⟨.value name, rfl⟩
  | object _ ih =>
    obtain ⟨ps, rfl⟩ := exists_property_drafts ih
    exact ⟨.object ps, rfl⟩
  | generic name _ ih =>
    obtain ⟨ss, rfl⟩ := exists_drafts ih
    exact ⟨.generic name ss, rfl⟩
  | union _ ih =>
    obtain ⟨ss, rfl⟩ := exists_drafts ih
    exact ⟨.union ss, rfl⟩
  | withLiteral _ text ih =>
    obtain ⟨⟨nullable, shape⟩, rfl⟩ := ih
    exact ⟨⟨nullable, .literal shape.name text⟩, rfl⟩
  | orNull _ ih =>
    obtain ⟨⟨nullable, shape⟩, rfl⟩ := ih
    exact ⟨⟨true, shape⟩, rfl⟩
  | child _ he ih =>
    obtain ⟨s, rfl⟩ := ih
    rw [children_draft, List.mem_map] at he
    obtain ⟨t, -, rfl⟩ := he
    exact ⟨t, rfl⟩
  | @decoded depth node _ hdecoded =>
    rw [Decode.draft_eq] at hdecoded
    cases hschema : Decode.schema depth node with
    | error e =>
      rw [hschema] at hdecoded
      cases hdecoded
    | ok s =>
      rw [hschema] at hdecoded
      exact ⟨s, Except.ok.inj hdecoded⟩

/-- What can be built is just what schemas hold. -/
theorem built_iff {d : Draft} : Built d ↔ ∃ s : Schema, s.draft = d := by
  refine ⟨Built.exists_schema, ?_⟩
  rintro ⟨s, rfl⟩
  have hnode := Json.Node.denotes_ofText_pretty s.numberFree_toJson
  exact .decoded (Decode.draft_record s hnode (Nat.le_refl _))

theorem Built.of_holds {d e : Draft} (h : Built d) (he : d.Holds e) : Built e := by
  induction he with
  | refl => exact h
  | tail _ hchild ih => exact ih.child hchild

theorem wellNamed_draft (s : Schema) : s.draft.WellNamed := by
  obtain ⟨nullable, shape⟩ := s
  cases shape with
  | value name => exact ⟨nofun, nofun⟩
  | literal name text => exact ⟨nofun, nofun⟩
  | object properties => exact ⟨fun _ _ => rfl, nofun⟩
  | generic name params => exact ⟨nofun, nofun⟩
  | union members => exact ⟨nofun, fun _ _ => rfl⟩

/-- The names of whatever is built are in order at every depth. What is written for it is read as a
tree of its record, and every such tree is decoded to it, with the name that the record gives,
unless it is too deep. -/
theorem Built.wellNamed_and_decodes {d : Draft} (h : Built d) :
    (∀ e, d.Holds e → e.WellNamed) ∧
    (Json.Node.ofText d.toJson.pretty.toList).1.Denotes d.toJson ∧
    ∀ (node : Json.Node) (depth : Nat), node.Denotes d.toJson → d.toJson.nesting ≤ depth →
      Decode.draft depth node = .ok d ∧ (Decode.schema depth node).map Schema.draft = .ok d := by
  obtain ⟨s, rfl⟩ := h.exists_schema
  rw [Schema.toJson_draft]
  refine ⟨fun e he => ?_, ?_, fun node depth hnode hdepth => ?_⟩
  · obtain ⟨t, rfl⟩ := (h.of_holds he).exists_schema
    exact wellNamed_draft t
  · exact Json.Node.denotes_ofText_pretty s.numberFree_toJson
  · have hdecodes := Decode.draft_record s hnode hdepth
    exact ⟨hdecodes, (Decode.draft_eq depth node).symm.trans hdecodes⟩

/-- An object type that is narrowed to a string keeps its name, which then says nothing. -/
theorem wellNamed_and_decodes_example :
    let inner := (object []).withLiteral "x"
    let d := (object [⟨"k", inner, true⟩, ⟨"k", (union [value "T"]).orNull, false⟩]).orNull
    let node := (Json.Node.ofText d.toJson.pretty.toList).1
    Decode.draft Json.maxDepth node = .ok d ∧
      (Decode.schema Json.maxDepth node).map Schema.draft = .ok d := by
  intro inner d node
  have hinner : Built inner := .withLiteral (.object (List.forall_mem_nil _)) "x"
  have hunion : Built (union [value "T"]).orNull :=
    .orNull (.union (List.forall_mem_singleton.mpr (.value "T")))
  have hd : Built d :=
    .orNull (.object (List.forall_mem_cons.mpr ⟨hinner, List.forall_mem_singleton.mpr hunion⟩))
  have hdecodes := Built.wellNamed_and_decodes hd
  exact hdecodes.2.2 _ Json.maxDepth hdecodes.2.1 (by decide)

end Draft

end AliasCheck
