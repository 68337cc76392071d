import AliasCheck.Proofs.Nesting
import AliasCheck.Schema.Decode
import AliasCheck.Schema.Record

/-!
# Decoding the record of a schema

A decoder that meets a tree which denotes the record of a schema gives back the schema, as long as
no more lists and objects are open than it admits, and fails otherwise. That the name of an object
or union type is fixed by its shape is what keeps the decoder from refusing any record that has been
written.
-/

namespace AliasCheck
namespace Decode

open Json (Node Item Field nesting itemsNesting membersNesting)

/-! ## Results that need depth -/

/-- The result of a decoder that has `depth` levels left and needs `need` of them in order to give
`a`. -/
def Within {ε α : Type} (need depth : Nat) (result : Except ε α) (a : α) : Prop :=
  if need ≤ depth then result = .ok a else ∃ e, result = .error e

namespace Within

variable {ε ε' α β : Type} {need need' depth : Nat} {result : Except ε α} {a : α} {b : β}

/-- What needs no depth succeeds. -/
theorem ok : Within 0 depth (.ok a : Except ε α) a := rfl

/-- One result after the other needs what the more demanding of them needs. -/
theorem bind {f : α → Except ε β} (h : Within need depth result a)
    (hf : Within need' depth (f a) b) : Within (max need need') depth (result >>= f) b := by
  unfold Within at *
  split at h
  · subst h
    split at hf
    · rw [if_pos (by omega)]
      exact hf
    · rw [if_neg (by omega)]
      exact hf
  · obtain ⟨e, rfl⟩ := h
    rw [if_neg (by omega)]
    exact ⟨e, rfl⟩

/-- A step that needs no depth changes nothing. -/
theorem bind_ok {f : α → Except ε β} (h : Within need depth result a) (hf : f a = .ok b) :
    Within need depth (result >>= f) b := by
  have hlast : Within 0 depth (f a) b := hf
  simpa using h.bind hlast

theorem map {f : α → β} (h : Within need depth result a) :
    Within need depth (result.map f) (f a) := by
  by_cases hneed : need ≤ depth
  · simp only [Within, hneed, if_true] at h ⊢
    rw [h]
    rfl
  · simp only [Within, hneed, if_false] at h ⊢
    obtain ⟨e, rfl⟩ := h
    exact ⟨e, rfl⟩

theorem mapError {f : ε → ε'} (h : Within need depth result a) :
    Within need depth (result.mapError f) a := by
  by_cases hneed : need ≤ depth
  · simp only [Within, hneed, if_true] at h ⊢
    rw [h]
    rfl
  · simp only [Within, hneed, if_false] at h ⊢
    obtain ⟨e, rfl⟩ := h
    exact ⟨f e, rfl⟩

/-- Opening a list or an object takes one level. -/
theorem opened {e : ε} {body : Nat → Except ε α} (h : ∀ depth, Within need depth (body depth) a) :
    Within (need + 1) depth (match depth with | 0 => .error e | depth + 1 => body depth) a := by
  cases depth with
  | zero => exact ⟨e, rfl⟩
  | succ depth =>
    have hbody := h depth
    by_cases hneed : need ≤ depth
    · simpa only [Within, Nat.add_le_add_iff_right, hneed, if_true] using hbody
    · simpa only [Within, Nat.add_le_add_iff_right, hneed, if_false] using hbody

end Within

/-! ## Records of schemas -/

/-- The record with the detail of a shape. -/
def Record.withDetail (r : Record) : Shape → Record
  | .value _ => r
  | .literal _ text => { r with literal := some (some text) }
  | .object properties => { r with properties := some (some properties) }
  | .generic _ params => { r with params := some (some params) }
  | .union members => { r with types := some (some members) }

/-- The record of a schema describes that schema. -/
theorem finishRecord_withDetail (shape : Shape) (nullable : Option Bool) (missing : Problem)
    (stop : Nat) :
    finishRecord (Record.withDetail ⟨some shape.name, nullable, none, none, none, none⟩ shape)
      missing stop = .ok ⟨nullable.getD false, shape⟩ := by
  cases shape <;> rfl

section Fields

theorem mapError_ok {ε ε' α : Type} (f : ε → ε') (a : α) :
    (Except.ok a : Except ε α).mapError f = .ok a := rfl

variable {depth afterKey after : Nat} {key : String} {node : Node} {fields : List Field}

/-- A member with a key of a record that has not been read yet is entered. -/
theorem recordFields_cons {r : Record} (field : RecordField)
    (hkey : RecordField.ofKey? key = some field) (hr : r.has field = false) :
    recordFields depth r (⟨.ok key, afterKey, none, node, after⟩ :: fields)
      = (atKey key after (recordField r field node (fun _ => optionalSchemas depth node)
          (fun _ => optionalProperties depth node))
        >>= fun r => recordFields depth r fields) := by
  rw [recordFields]
  simp [keyOf, ofFaults, mapError_ok, hkey, hr, colon, bind, Except.bind]

theorem propertyFields_cons {r : PropertyRecord} (field : PropertyField)
    (hkey : PropertyField.ofKey? key = some field) (hr : r.has field = false) :
    propertyFields depth r (⟨.ok key, afterKey, none, node, after⟩ :: fields)
      = (atKey key after (propertyField r field node fun _ => schema depth node)
        >>= fun r => propertyFields depth r fields) := by
  rw [propertyFields]
  simp [keyOf, ofFaults, mapError_ok, hkey, hr, colon, bind, Except.bind]

/-- The mark of an optional property is entered into its record, and nothing nests in it. -/
theorem propertyFields_optional (optional : Bool)
    (h : Field.DenoteAll fields (if optional then [("optional", .bool true)] else []))
    (depth : Nat) (key : String) (s : Schema) :
    propertyFields depth ⟨some key, some s, none⟩ fields
        = .ok ⟨some key, some s, if optional then some true else none⟩
      ∧ membersNesting (if optional then [("optional", .bool true)] else []) = 0 := by
  cases optional with
  | false =>
    cases h
    exact ⟨rfl, rfl⟩
  | true =>
    cases h with
    | cons hmark hnil =>
    cases hmark
    cases hnil
    exact ⟨rfl, rfl⟩

end Fields

mutual

/-- The tree of a schema's record gives back the schema. -/
theorem schema_record (s : Schema) {node : Node} (h : node.Denotes s.toJson) (depth : Nat) :
    Within s.toJson.nesting depth (schema depth node) s := by
  obtain ⟨nullable, shape⟩ := s
  rw [Schema.toJson] at h ⊢
  cases h with
  | @object start stop fields _ hfields =>
  simp only [schema, nesting, membersNesting, Nat.zero_max]
  refine Within.opened fun depth => ?_
  cases hfields with
  | cons hname hmore =>
  cases hname
  rw [recordFields_cons .name rfl rfl]
  cases nullable with
  | false =>
    have hdetail := recordFields_detail shape hmore depth shape.name none
    exact Within.bind_ok hdetail (finishRecord_withDetail shape none _ _)
  | true =>
    cases hmore with
    | cons hnull hmore =>
    cases hnull
    have hdetail := recordFields_detail shape hmore depth shape.name (some true)
    simp only [if_true, List.cons_append, List.nil_append, membersNesting, nesting,
      Nat.zero_max]
    refine Within.bind_ok ?_ (finishRecord_withDetail shape (some true) _ _)
    show Within _ _ (recordFields depth _ (_ :: _)) _
    rw [recordFields_cons .nullable rfl rfl]
    exact hdetail

/-- The member that holds the detail of a shape is entered into the record. -/
theorem recordFields_detail (shape : Shape) {fields : List Field}
    (h : Field.DenoteAll fields shape.details) (depth : Nat) (name : String)
    (nullable : Option Bool) :
    Within (membersNesting shape.details) depth
      (recordFields depth ⟨some name, nullable, none, none, none, none⟩ fields)
      (Record.withDetail ⟨some name, nullable, none, none, none, none⟩ shape) := by
  match shape with
  | .value _ =>
    cases h
    exact Within.ok
  | .literal _ text =>
    cases h with
    | cons htext hnil =>
    cases htext
    cases hnil
    exact Within.ok
  | .object properties =>
    cases h with
    | cons hlist hnil =>
    cases hnil
    have hproperties := optionalProperties_record properties hlist depth
    rw [recordFields_cons .properties rfl rfl]
    exact Within.bind_ok hproperties.map.mapError rfl
  | .generic _ params =>
    cases h with
    | cons hlist hnil =>
    cases hnil
    have hparams := optionalSchemas_record params hlist depth
    rw [recordFields_cons .params rfl rfl]
    exact Within.bind_ok hparams.map.mapError rfl
  | .union members =>
    cases h with
    | cons hlist hnil =>
    cases hnil
    have hmembers := optionalSchemas_record members hlist depth
    rw [recordFields_cons .types rfl rfl]
    exact Within.bind_ok hmembers.map.mapError rfl

theorem optionalSchemas_record (schemas : List Schema) {node : Node}
    (h : node.Denotes (.array (Schema.toJsonList schemas))) (depth : Nat) :
    Within (itemsNesting (Schema.toJsonList schemas) + 1) depth (optionalSchemas depth node)
      (some schemas) := by
  cases h with
  | array hitems =>
  simp only [optionalSchemas]
  exact Within.opened fun depth => Within.bind_ok (schemaItems_record schemas hitems depth 0) rfl

theorem schemaItems_record (schemas : List Schema) {items : List Item}
    (h : Item.DenoteAll items (Schema.toJsonList schemas)) (depth index : Nat) :
    Within (itemsNesting (Schema.toJsonList schemas)) depth (schemaItems depth index items)
      schemas := by
  match schemas with
  | [] =>
    cases h
    exact Within.ok
  | s :: ss =>
    cases h with
    | cons hs hss =>
    have hfirst := schema_record s hs depth
    have hmore := schemaItems_record ss hss depth (index + 1)
    exact hfirst.mapError.bind (Within.bind_ok hmore rfl)

theorem optionalProperties_record (properties : List Property) {node : Node}
    (h : node.Denotes (.array (Property.toJsonList properties))) (depth : Nat) :
    Within (itemsNesting (Property.toJsonList properties) + 1) depth
      (optionalProperties depth node) (some properties) := by
  cases h with
  | array hitems =>
  simp only [optionalProperties]
  exact Within.opened fun depth =>
    Within.bind_ok (propertyItems_record properties hitems depth 0) rfl

theorem propertyItems_record (properties : List Property) {items : List Item}
    (h : Item.DenoteAll items (Property.toJsonList properties)) (depth index : Nat) :
    Within (itemsNesting (Property.toJsonList properties)) depth (propertyItems depth index items)
      properties := by
  match properties with
  | [] =>
    cases h
    exact Within.ok
  | p :: ps =>
    cases h with
    | cons hp hps =>
    have hfirst := property_record p hp depth
    have hmore := propertyItems_record ps hps depth (index + 1)
    exact hfirst.mapError.bind (Within.bind_ok hmore rfl)

/-- The tree of a property's record gives back the property. -/
theorem property_record (p : Property) {node : Node} (h : node.Denotes p.toJson) (depth : Nat) :
    Within p.toJson.nesting depth (property depth node) p := by
  obtain ⟨key, s, optional⟩ := p
  rw [Property.toJson] at h ⊢
  cases h with
  | @object start stop fields _ hfields =>
  simp only [property, nesting, membersNesting, Nat.zero_max]
  refine Within.opened fun depth => ?_
  cases hfields with
  | cons hkey hmore =>
  cases hkey
  cases hmore with
  | cons hs hmore =>
  have hschema := schema_record s hs depth
  obtain ⟨hoptional, hflat⟩ := propertyFields_optional optional hmore depth key s
  rw [propertyFields_cons .key rfl rfl, hflat, Nat.max_zero]
  refine Within.bind_ok (a := ⟨some key, some s, if optional then some true else none⟩) ?_ ?_
  · show Within _ _ (propertyFields depth _ (_ :: _)) _
    rw [propertyFields_cons .type rfl rfl]
    exact Within.bind_ok hschema.map.mapError hoptional
  · cases optional <;> rfl

end

end Decode
end AliasCheck
