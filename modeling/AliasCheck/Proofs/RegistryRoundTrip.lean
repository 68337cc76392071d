import AliasCheck.Proofs.DecodeRecord
import AliasCheck.Proofs.Tables
import AliasCheck.Registry

/-!
# Storing a registry and loading it again

A registry that is made from a source has distinct names, and what is written for it holds no number
and no record that a decoder would refuse. So the only thing that can go wrong when the text is
loaded again is its depth.
-/

namespace AliasCheck

open Json (Node Item Field NumberFree NumberFreeItems NumberFreeMembers nesting membersNesting)

/-! ## What is written -/

mutual

theorem Schema.numberFree_toJson (s : Schema) : s.toJson.NumberFree := by
  obtain ⟨nullable, shape⟩ := s
  have hdetails := Shape.numberFree_details shape
  cases nullable <;> simpa [Schema.toJson, NumberFree, NumberFreeMembers] using hdetails

theorem Shape.numberFree_details (shape : Shape) : NumberFreeMembers shape.details := by
  match shape with
  | .value _ | .literal .. => simp [Shape.details, NumberFreeMembers, NumberFree]
  | .object properties =>
    exact ⟨Property.numberFree_toJsonList properties, trivial⟩
  | .generic _ params => exact ⟨Schema.numberFree_toJsonList params, trivial⟩
  | .union members => exact ⟨Schema.numberFree_toJsonList members, trivial⟩

theorem Schema.numberFree_toJsonList (schemas : List Schema) :
    NumberFreeItems (Schema.toJsonList schemas) := by
  match schemas with
  | [] => trivial
  | s :: ss => exact ⟨Schema.numberFree_toJson s, Schema.numberFree_toJsonList ss⟩

theorem Property.numberFree_toJson (p : Property) : p.toJson.NumberFree := by
  obtain ⟨key, s, optional⟩ := p
  have hs := Schema.numberFree_toJson s
  cases optional <;> simpa [Property.toJson, NumberFree, NumberFreeMembers] using hs

theorem Property.numberFree_toJsonList (properties : List Property) :
    NumberFreeItems (Property.toJsonList properties) := by
  match properties with
  | [] => trivial
  | p :: ps => exact ⟨Property.numberFree_toJson p, Property.numberFree_toJsonList ps⟩

end

namespace Registry

/-- No number is written for a registry. -/
theorem numberFree_toJson (r : Registry) : r.toJson.NumberFree := by
  have hmembers : NumberFreeMembers (r.map fun entry => (entry.1, entry.2.toJson)) := by
    induction r with
    | nil => trivial
    | cons entry r ih => exact ⟨Schema.numberFree_toJson entry.2, ih⟩
  exact hmembers

/-! ## The names of a registry -/

/-- The registry of a program is made of its aliases, entered one after the other. -/
theorem ofProgram_eq_merge (program : Program) :
    ofProgram program
      = Table.merge [] ((program.filterMap Statement.declared?).map fun a =>
          (a.name, a.body.toSchema)) := by
  rw [ofProgram, Table.merge, List.foldl_map]

/-- No name stands twice in the registry of a program. -/
theorem nodup_names_ofProgram (program : Program) : (Table.names (ofProgram program)).Nodup := by
  rw [ofProgram_eq_merge]
  exact Table.nodup_names_merge (by simp [Table.names]) _

/-! ## Loading what was written -/

/-- The members of a written registry are entered in their order. -/
theorem registryFields_record (r : Registry) {fields : List Field}
    (h : Field.DenoteAll fields (r.map fun (name, schema) => (name, schema.toJson)))
    (table : Table Schema) (depth : Nat) :
    Decode.Within (membersNesting (r.map fun (name, schema) => (name, schema.toJson))) depth
      (Decode.registryFields depth table fields) (Table.merge table r) := by
  induction r generalizing table fields with
  | nil =>
    cases h
    exact Decode.Within.ok
  | cons entry r ih =>
    cases h with
    | cons hschema hmore =>
    have hfirst := Decode.schema_record entry.2 hschema depth
    have hrest := ih hmore (Table.insert entry.1 entry.2 table)
    exact hfirst.mapError.bind hrest

/-- The tree of a written registry gives back the registry, if it has no name twice. -/
theorem registry_record {r : Registry} (hr : (Table.names r).Nodup) {node : Node}
    (h : node.Denotes r.toJson) (depth : Nat) :
    Decode.Within r.toJson.nesting depth (Decode.registry depth node) r := by
  rw [toJson] at h ⊢
  cases h with
  | object hfields =>
  simp only [Decode.registry, nesting]
  refine Decode.Within.opened fun depth => ?_
  have hmembers := registryFields_record r hfields [] depth
  rw [Table.merge_eq_append (t := []) (by simpa using hr), List.nil_append] at hmembers
  exact Decode.Within.bind_ok hmembers rfl

/-- No name stands twice in the registry of a source. -/
theorem nodup_names_ofSource {source : String} {r : Registry} (h : ofSource source = .ok r) :
    (Table.names r).Nodup := by
  obtain ⟨program, -, rfl⟩ := map_eq_ok.mp h
  exact nodup_names_ofProgram program

/-- A registry without a name that stands twice is parsed from its text unless that is too deep. -/
theorem within_parse_pretty {r : Registry} (hr : (Table.names r).Nodup) :
    Decode.Within (Json.textNesting r.toJson.pretty.toList) 127
      (parse r.toJson.pretty.toList) r := by
  rw [Json.textNesting_pretty (numberFree_toJson r)]
  exact registry_record hr (Json.Node.denotes_ofText_pretty (numberFree_toJson r)) Json.maxDepth

theorem parse_pretty {r : Registry} (hr : (Table.names r).Nodup)
    (hdepth : Json.textNesting r.toJson.pretty.toList ≤ 127) :
    parse r.toJson.pretty.toList = .ok r := by
  have hload := within_parse_pretty hr
  rwa [Decode.Within, if_pos hdepth] at hload

theorem exists_parse_pretty_eq_error {r : Registry} (hr : (Table.names r).Nodup)
    (hdepth : 127 < Json.textNesting r.toJson.pretty.toList) :
    ∃ e, parse r.toJson.pretty.toList = .error e := by
  have hload := within_parse_pretty hr
  rwa [Decode.Within, if_neg (Nat.not_le_of_gt hdepth)] at hload

/-- The registry of a source is loaded again from the text in which it is stored, with all names in
their order and the same schema under each, as long as that text has no more than 127 lists and
objects open at once; if it has more, loading fails. -/
theorem parse_pretty_ofSource {source : String} {r : Registry} (h : ofSource source = .ok r) :
    (Json.textNesting r.toJson.pretty.toList ≤ 127 → parse r.toJson.pretty.toList = .ok r) ∧
    (127 < Json.textNesting r.toJson.pretty.toList →
      ∃ e, parse r.toJson.pretty.toList = .error e) :=
  ⟨parse_pretty (nodup_names_ofSource h), exists_parse_pretty_eq_error (nodup_names_ofSource h)⟩

/-- A later declaration takes the place of the first one, and everything is loaded again. -/
theorem parse_pretty_ofSource_example :
    ofSource "type A = B; export type C = \x7b| 'k\\n'?: ?\"x\"[] |\x7d; type A = (C) => A | 1"
        = .ok [("A", .value "Function"),
          ("C", .object [⟨"k\n", (Schema.generic "Array"
            [(Schema.value "StringLiteral").withLiteral "x"]).orNull, true⟩])] ∧
      parse (toJson [("A", .value "Function"),
          ("C", .object [⟨"k\n", (Schema.generic "Array"
            [(Schema.value "StringLiteral").withLiteral "x"]).orNull, true⟩])]).pretty.toList
        = .ok [("A", .value "Function"),
          ("C", .object [⟨"k\n", (Schema.generic "Array"
            [(Schema.value "StringLiteral").withLiteral "x"]).orNull, true⟩])] := by
  have h : ofSource
      "type A = B; export type C = \x7b| 'k\\n'?: ?\"x\"[] |\x7d; type A = (C) => A | 1"
      = .ok [("A", .value "Function"),
          ("C", .object [⟨"k\n", (Schema.generic "Array"
            [(Schema.value "StringLiteral").withLiteral "x"]).orNull, true⟩])] := by
    decide +kernel
  refine ⟨h, (parse_pretty_ofSource h).1 ?_⟩
  rw [Json.textNesting_pretty (numberFree_toJson _)]
  decide

end Registry

end AliasCheck
