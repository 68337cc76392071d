import Mathlib.Data.Finset.Insert
import AliasCheck.Proofs.Verdicts

/-!
# Properties that come to allow null

When some properties of an object type are made to allow null, the errors about missing values go
away for these properties, and nothing else changes. Properties may share a key, so the errors are
told apart by the number of the property that they come from, not by what they say.
-/

namespace AliasCheck

/-- The same property with a type that allows null. -/
def Property.orNull (p : Property) : Property := ⟨p.key, p.schema.orNull, p.optional⟩

/-- The property with this number, which allows null if the number is a chosen one. -/
def Property.relaxAt (chosen : Finset ℕ) (i : ℕ) (p : Property) : Property :=
  if i ∈ chosen then p.orNull else p

/-- The properties with the chosen numbers allow null too. -/
def Property.relax (chosen : Finset ℕ) (properties : List Property) : List Property :=
  properties.mapIdx (Property.relaxAt chosen)

/-- The same type, but the properties with the chosen numbers allow null too. -/
def Schema.relax (chosen : Finset ℕ) (s : Schema) : Schema :=
  match s.shape with
  | .object properties => ⟨s.nullable, .object (Property.relax chosen properties)⟩
  | _ => s

theorem Schema.properties?_relax {s : Schema} {properties : List Property}
    (hs : s.properties? = some properties) (chosen : Finset ℕ) :
    (s.relax chosen).properties? = some (Property.relax chosen properties) := by
  obtain ⟨nullable, shape⟩ := s
  cases shape with
  | object ps =>
    cases hs
    rfl
  | _ => cases hs

namespace Validator

variable {checks : Table Check} {s : Schema} {v : Validator} {properties : List Property}
  {document : Json} {key : String} {e : KeyedError}

/-- The errors about properties, each with the number of the property that it comes from. -/
def numberedErrors (checks : Table Check) (properties : List Property) (document : Json) :
    List (ℕ × KeyedError) :=
  properties.zipIdx.filterMap fun (p, i) =>
    (errorFor checks document p.key p.schema).map fun e => (i, e)

/-- The error is not one about a missing value of a chosen property. -/
def isKept (chosen : Finset ℕ) (numbered : ℕ × KeyedError) : Bool :=
  numbered.1 ∉ chosen || isPresent numbered.2.value

/-! ## A single property -/

/-- An error says under which key it arose and what stands there. -/
theorem errorFor_eq_some (h : errorFor checks document key s = some e) :
    e.key = key ∧ e.value = document.get? key ∧
      ∃ check, refusal check s.nullable e.value = some e.reason := by
  rw [errorFor] at h
  obtain ⟨check, -, h⟩ := Option.bind_eq_some_iff.mp h
  obtain ⟨reason, hreason, h⟩ := Option.bind_eq_some_iff.mp h
  split at h
  · cases h
  · cases h
    exact ⟨rfl, rfl, check, hreason⟩

theorem refusal_of_not_isPresent {check : Check} {nullable : Bool} {value : Option Json}
    (h : isPresent value = false) :
    refusal check nullable value = if nullable then none else some "missing" := by
  match value with
  | none | some .null => rfl
  | some (.bool _) | some (.number _) | some (.string _) | some (.array _) | some (.object _) =>
    cases h

theorem refusal_of_isPresent {check : Check} {value : Option Json} (h : isPresent value = true)
    (nullable : Bool) : refusal check nullable value = refusal check true value := by
  match value with
  | none | some .null => cases h
  | some (.bool _) | some (.number _) | some (.string _) | some (.array _) | some (.object _) => rfl

/-- A value that is missing can be refused for no other reason. -/
theorem reason_of_not_isPresent (h : errorFor checks document key s = some e)
    (hvalue : isPresent e.value = false) : e.reason = "missing" := by
  obtain ⟨-, -, check, hreason⟩ := errorFor_eq_some h
  rw [refusal_of_not_isPresent hvalue] at hreason
  cases hnullable : s.nullable with
  | true =>
    rw [hnullable] at hreason
    cases hreason
  | false =>
    rw [hnullable] at hreason
    exact (Option.some.inj hreason).symm

/-- A type that comes to allow null keeps the errors about values that are there. -/
theorem errorFor_orNull (checks : Table Check) (document : Json) (key : String) (s : Schema) :
    errorFor checks document key s.orNull
      = (errorFor checks document key s).filter fun e => isPresent e.value := by
  rw [errorFor, errorFor, show s.orNull.name = s.name from rfl,
    show s.orNull.nullable = true from rfl]
  cases checkFor checks s.name with
  | none => rfl
  | some check =>
    simp only [Option.bind_eq_bind, Option.bind_some]
    cases hvalue : isPresent (document.get? key) with
    | false =>
      rw [refusal_of_not_isPresent hvalue, refusal_of_not_isPresent hvalue]
      cases s.nullable with
      | true => rfl
      | false => exact (Option.filter_some_neg (by simp [hvalue])).symm
    | true =>
      rw [refusal_of_isPresent hvalue s.nullable]
      cases refusal check true (document.get? key) with
      | none => rfl
      | some reason => by_cases hreason : reason = "" <;> simp [Option.filter, hreason, hvalue]

/-- What is found about a property that is relaxed, or is not, is what is kept of what was found. -/
theorem errorFor_relax (checks : Table Check) (document : Json) (chosen : Finset ℕ) (i : ℕ)
    (p : Property) :
    errorFor checks document (p.relaxAt chosen i).key (p.relaxAt chosen i).schema
      = (((errorFor checks document p.key p.schema).map fun e => (i, e)).filter
          (isKept chosen)).map Prod.snd := by
  by_cases hi : i ∈ chosen
  · rw [Property.relaxAt, if_pos hi]
    refine (errorFor_orNull checks document p.key p.schema).trans ?_
    cases errorFor checks document p.key p.schema with
    | none => rfl
    | some e => cases hvalue : isPresent e.value <;> simp [Option.filter, isKept, hi, hvalue]
  · rw [Property.relaxAt, if_neg hi]
    cases errorFor checks document p.key p.schema with
    | none => rfl
    | some e => simp [Option.filter, isKept, hi]

/-! ## All properties -/

theorem map_snd_numberedErrors (checks : Table Check) (properties : List Property)
    (document : Json) : (numberedErrors checks properties document).map Prod.snd
      = properties.filterMap fun p => errorFor checks document p.key p.schema := by
  rw [numberedErrors, List.map_filterMap]
  conv_rhs => rw [← List.zipIdx_map_fst 0 properties, List.filterMap_map]
  refine List.filterMap_congr fun x _ => ?_
  simp only [Option.map_map, Function.comp_def, Option.map_id']

/-- The errors about relaxed properties are those that are kept. -/
theorem filterMap_errorFor_relax (checks : Table Check) (document : Json) (chosen : Finset ℕ)
    (properties : List Property) :
    (Property.relax chosen properties).filterMap
        (fun p => errorFor checks document p.key p.schema)
      = ((numberedErrors checks properties document).filter (isKept chosen)).map Prod.snd := by
  rw [Property.relax, List.mapIdx_eq_zipIdx_map, List.filterMap_map, numberedErrors,
    List.filter_filterMap, List.map_filterMap]
  exact List.filterMap_congr fun x _ => errorFor_relax checks document chosen x.2 x.1

theorem exists_of_mem_numberedErrors {i : ℕ}
    (h : (i, e) ∈ numberedErrors checks properties document) :
    ∃ p, properties[i]? = some p ∧ errorFor checks document p.key p.schema = some e := by
  obtain ⟨⟨p, j⟩, hp, he⟩ := List.mem_filterMap.mp h
  obtain ⟨e', he', heq⟩ := Option.map_eq_some_iff.mp he
  cases heq
  exact ⟨p, List.mem_zipIdx_iff_getElem?.mp hp, he'⟩

/-- Relaxed properties have checks if they had them before. -/
theorem hasCheck_relax (h : ∀ p ∈ properties, HasCheck checks p) (chosen : Finset ℕ) :
    ∀ p ∈ Property.relax chosen properties, HasCheck checks p := by
  intro q hq
  obtain ⟨i, hi, rfl⟩ := List.mem_mapIdx.mp hq
  have hcheck := h _ (List.getElem_mem hi)
  rw [Property.relaxAt]
  split
  · exact hcheck
  · exact hcheck

/-- An object type that compiles still does when some of its properties come to allow null. The
validator then finds what the old one found, except for the errors that come from these properties
and are about values that are absent or null. All of those say that the value is missing. So
whatever was accepted still is. -/
theorem validate_relax (hv : compile checks s = .ok v) (hs : s.properties? = some properties)
    (chosen : Finset ℕ) :
    ∃ v', compile checks (s.relax chosen) = .ok v' ∧ ∀ document,
      validate v document = (numberedErrors checks properties document).map Prod.snd ∧
      validate v' document
        = ((numberedErrors checks properties document).filter fun numbered =>
            numbered.1 ∉ chosen || isPresent numbered.2.value).map Prod.snd ∧
      (∀ i e, (i, e) ∈ numberedErrors checks properties document →
        (∃ p, properties[i]? = some p ∧ e.key = p.key ∧ e.value = document.get? p.key) ∧
        (isPresent e.value = false → e.reason = "missing")) ∧
      (validate v document = [] → validate v' document = []) := by
  obtain ⟨properties', hs', hchecks⟩ := exists_compile_eq_ok.mp ⟨v, hv⟩
  cases hs.symm.trans hs'
  have hrelaxed := Schema.properties?_relax hs chosen
  obtain ⟨v', hv'⟩ := exists_compile_eq_ok.mpr ⟨_, hrelaxed, hasCheck_relax hchecks chosen⟩
  refine ⟨v', hv', fun document => ?_⟩
  have hold : validate v document = (numberedErrors checks properties document).map Prod.snd :=
    (validate_of_compile hv hs document).trans (map_snd_numberedErrors ..).symm
  have hnew := (validate_of_compile hv' hrelaxed document).trans
    (filterMap_errorFor_relax checks document chosen properties)
  refine ⟨hold, hnew, ?_, ?_⟩
  · intro i e he
    obtain ⟨p, hp, hfound⟩ := exists_of_mem_numberedErrors he
    obtain ⟨hkey, hvalue, -⟩ := errorFor_eq_some hfound
    exact ⟨⟨p, hp, hkey, hvalue⟩, reason_of_not_isPresent hfound⟩
  · intro hnone
    rw [hold, List.map_eq_nil_iff] at hnone
    rw [hnew, hnone]
    rfl

/-- Of the two properties with the key `a` only the first is relaxed, and the check of `b` has a
reason of its own that reads like the one for missing values. -/
theorem validate_relax_example :
    ∃ s v v', s = Schema.object [⟨"a", .value "string", false⟩, ⟨"a", .value "string", false⟩,
        ⟨"b", .value "Strict", false⟩, ⟨"c", .value "Strict", true⟩] ∧
      compile [("Strict", Check.failing "missing")] s = .ok v ∧
      compile [("Strict", Check.failing "missing")] (s.relax {0, 2, 3}) = .ok v' ∧
      validate v (.object [("b", .bool true)])
        = [⟨"a", none, "missing"⟩, ⟨"a", none, "missing"⟩, ⟨"b", some (.bool true), "missing"⟩,
          ⟨"c", none, "missing"⟩] ∧
      validate v' (.object [("b", .bool true)])
        = [⟨"a", none, "missing"⟩, ⟨"b", some (.bool true), "missing"⟩] := by
  obtain ⟨v, hv⟩ : ∃ v, compile [("Strict", Check.failing "missing")]
      (.object [⟨"a", .value "string", false⟩, ⟨"a", .value "string", false⟩,
        ⟨"b", .value "Strict", false⟩, ⟨"c", .value "Strict", true⟩]) = .ok v :=
    exists_compile_eq_ok.mpr ⟨_, rfl, by decide⟩
  obtain ⟨v', hv', herrors⟩ := validate_relax hv rfl {0, 2, 3}
  obtain ⟨hold, hnew, -, -⟩ := herrors (.object [("b", .bool true)])
  exact ⟨_, v, v', rfl, hv, hv', hold, hnew⟩

end Validator
end AliasCheck
