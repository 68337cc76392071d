import AliasCheck.Proofs.Results
import AliasCheck.Proofs.Tables
import AliasCheck.Validator

/-!
# What a compiled validator finds

A schema compiles if it is that of an object type and each of its properties has a type with a
check. What the validator then finds in a document depends, property by property, on the key and on
the type: a value that is missing is a matter of the type, and any other value one of the check.
-/

namespace AliasCheck
namespace Validator

/-- The check for the types of a name: the builtin one if there is one, else the one that was
brought. -/
def checkFor (checks : Table Check) (name : String) : Option Check :=
  (Table.get? name Check.builtins).or (Table.get? name checks)

/-- The type of a property has a check. -/
def HasCheck (checks : Table Check) (p : Property) : Prop :=
  p.schema.name ∈ Table.names Check.builtins ∨ p.schema.name ∈ Table.names checks

instance (checks : Table Check) (p : Property) : Decidable (HasCheck checks p) :=
  inferInstanceAs (Decidable (_ ∨ _))

/-- Why what stands under a key is refused, if it is. -/
def refusal (check : Check) (nullable : Bool) : Option Json → Option String
  | none | some .null => if nullable then none else some "missing"
  | some value =>
    match check (some value) with
    | .ok () => none
    | .error reason => some reason

/-- The error about a property with this key and this type. -/
def errorFor (checks : Table Check) (document : Json) (key : String) (s : Schema) :
    Option KeyedError := do
  let check ← checkFor checks s.name
  let reason ← refusal check s.nullable (document.get? key)
  if reason = "" then none else some ⟨key, document.get? key, reason⟩

section Compile

variable {checks : Table Check} {s : Schema} {p : Property}

theorem get?_inForce (checks : Table Check) (name : String) :
    Table.get? name (inForce checks) = checkFor checks name :=
  Table.get?_merge checks (by decide) name

theorem hasCheck_iff : HasCheck checks p ↔ ∃ check, checkFor checks p.schema.name = some check := by
  rw [← Option.isSome_iff_exists, checkFor, Option.isSome_or, Bool.or_eq_true, HasCheck,
    Table.isSome_get?_iff, Table.isSome_get?_iff]

theorem compileProperty_eq_ok {c : KeyedCheck} :
    compileProperty (inForce checks) p = .ok c ↔
      ∃ check, checkFor checks p.schema.name = some check ∧
        c = ⟨p.key, guarded p.schema.nullable check⟩ := by
  rw [compileProperty, get?_inForce]
  cases checkFor checks p.schema.name with
  | none => simp
  | some check => simp [eq_comm]

theorem exists_compileProperty_eq_ok :
    (∃ c, compileProperty (inForce checks) p = .ok c) ↔ HasCheck checks p := by
  rw [hasCheck_iff]
  constructor
  · rintro ⟨c, h⟩
    obtain ⟨check, hcheck, -⟩ := compileProperty_eq_ok.mp h
    exact ⟨check, hcheck⟩
  · rintro ⟨check, hcheck⟩
    exact ⟨_, compileProperty_eq_ok.mpr ⟨check, hcheck, rfl⟩⟩

theorem compileProperty_eq_error (h : ¬ HasCheck checks p) :
    compileProperty (inForce checks) p = .error (.missingCheck p.key p.schema.name) := by
  rw [hasCheck_iff, ← Option.isSome_iff_exists, Option.not_isSome_iff_eq_none] at h
  rw [compileProperty, get?_inForce, h]

theorem compile_of_properties {properties : List Property} (hs : s.properties? = some properties) :
    compile checks s = properties.mapM (compileProperty (inForce checks)) := by
  rw [compile, hs]

theorem compile_eq_error_of_none (hs : s.properties? = none) :
    compile checks s = .error (.notAnObject s.name) := by
  rw [compile, hs]

/-- A schema compiles if all of its properties have checks. -/
theorem exists_compile_eq_ok : (∃ v, compile checks s = .ok v) ↔
    ∃ properties, s.properties? = some properties ∧ ∀ p ∈ properties, HasCheck checks p := by
  cases hs : s.properties? with
  | none =>
    rw [compile_eq_error_of_none hs]
    simp
  | some properties =>
    simp only [compile_of_properties hs, exists_mapM_eq_ok, exists_compileProperty_eq_ok,
      Option.some.injEq, exists_eq_left']

/-- The first property without a check is the error. -/
theorem compile_eq_error {before after : List Property}
    (hs : s.properties? = some (before ++ p :: after)) (hbefore : ∀ q ∈ before, HasCheck checks q)
    (hp : ¬ HasCheck checks p) :
    compile checks s = .error (.missingCheck p.key p.schema.name) := by
  rw [compile_of_properties hs]
  refine mapM_eq_error (fun q hq => ?_) (compileProperty_eq_error hp)
  exact exists_compileProperty_eq_ok.mpr (hbefore q hq)

end Compile

section Validate

variable {checks : Table Check} {s : Schema}

/-- A reason is given by the check, or it is that the value is missing. -/
theorem refusal_eq_some {check : Check} {nullable : Bool} {value : Option Json} {reason : String}
    (h : refusal check nullable value = some reason) :
    reason = "missing" ∨ check value = .error reason := by
  have hmissing : (if nullable then none else some "missing") = some reason →
      reason = "missing" := by
    intro h
    cases nullable with
    | false => exact (Option.some.inj h).symm
    | true => cases h
  unfold refusal at h
  split at h
  · exact .inl (hmissing h)
  · exact .inl (hmissing h)
  · rename_i value _
    cases hcheck : check (some value) with
    | ok _ =>
      rw [hcheck] at h
      cases h
    | error e =>
      rw [hcheck] at h
      exact .inr (congrArg Except.error (Option.some.inj h))

theorem guarded_some (nullable : Bool) (check : Check) {value : Json} (h : value ≠ .null) :
    guarded nullable check (some value) = check (some value) := by
  cases value with
  | null => exact absurd rfl h
  | _ => rfl

theorem refusal_some (nullable : Bool) (check : Check) {value : Json} (h : value ≠ .null) :
    refusal check nullable (some value)
      = match check (some value) with
        | .ok () => none
        | .error reason => some reason := by
  cases value with
  | null => exact absurd rfl h
  | _ => rfl

/-- A guarded check is asked only about values that are there and are not null. -/
theorem errorOf_guarded (document : Json) (key : String) (nullable : Bool) (check : Check) :
    errorOf document ⟨key, guarded nullable check⟩
      = (refusal check nullable (document.get? key)).bind fun reason =>
          if reason = "" then none else some ⟨key, document.get? key, reason⟩ := by
  rw [errorOf]
  cases hvalue : document.get? key with
  | none => cases nullable <;> rfl
  | some value =>
    by_cases hnull : value = .null
    · subst hnull
      cases nullable <;> rfl
    · simp only [guarded_some nullable check hnull, refusal_some nullable check hnull]
      cases check (some value) with
      | ok _ => rfl
      | error reason => simp

/-- Each property has its say, in order and also if another one has the same key. -/
theorem validate_of_compile {v : Validator} {properties : List Property}
    (h : compile checks s = .ok v) (hs : s.properties? = some properties) (document : Json) :
    validate v document
      = properties.filterMap fun p => errorFor checks document p.key p.schema := by
  rw [compile_of_properties hs] at h
  have hall := mapM_eq_ok.mp h
  clear h hs
  induction hall with
  | nil => rfl
  | @cons p c properties v hp _ ih =>
    obtain ⟨check, hcheck, rfl⟩ := compileProperty_eq_ok.mp hp
    have hfirst : errorOf document ⟨p.key, guarded p.schema.nullable check⟩
        = errorFor checks document p.key p.schema := by
      rw [errorOf_guarded, errorFor, hcheck]
      rfl
    rw [validate, List.filterMap_cons, List.filterMap_cons, hfirst]
    cases errorFor checks document p.key p.schema with
    | none => exact ih
    | some error => exact congrArg (error :: ·) ih

/-- What holds no keys lacks every property. -/
theorem errorFor_of_missing {document : Json} {key : String} {check : Check}
    (hcheck : checkFor checks s.name = some check) (hvalue : document.get? key = none) :
    errorFor checks document key s
      = if s.nullable then none else some ⟨key, none, "missing"⟩ := by
  rw [errorFor, hcheck, hvalue]
  cases s.nullable <;> rfl

theorem get?_of_notObject {document : Json} (h : ∀ members, document ≠ .object members)
    (key : String) : document.get? key = none := by
  cases document with
  | object members => exact absurd rfl (h members)
  | _ => rfl

end Validate

/-- A schema compiles exactly if it is that of an object type whose properties all have checks; if
it does not compile, the error names the type or the first property without a check. A validator
gives the errors of the properties in their order. A document that is no object lacks them all. -/
theorem compile_then_validate (checks : Table Check) (s : Schema) :
    ((∃ v, compile checks s = .ok v) ↔
      ∃ properties, s.properties? = some properties ∧ ∀ p ∈ properties, HasCheck checks p) ∧
    (s.properties? = none → compile checks s = .error (.notAnObject s.name)) ∧
    (∀ before p after, s.properties? = some (before ++ p :: after) →
      (∀ q ∈ before, HasCheck checks q) → ¬ HasCheck checks p →
      compile checks s = .error (.missingCheck p.key p.schema.name)) ∧
    ∀ v properties, compile checks s = .ok v → s.properties? = some properties →
      (∀ document, validate v document
        = properties.filterMap fun p => errorFor checks document p.key p.schema) ∧
      ∀ document, (∀ members, document ≠ .object members) → validate v document
        = properties.filterMap fun p =>
            if p.schema.nullable then none else some ⟨p.key, none, "missing"⟩ := by
  refine ⟨exists_compile_eq_ok, compile_eq_error_of_none, ?_, ?_⟩
  · intro before p after hs hbefore hp
    exact compile_eq_error hs hbefore hp
  · intro v properties hv hs
    refine ⟨validate_of_compile hv hs, fun document hdocument => ?_⟩
    obtain ⟨properties', hs', hchecks⟩ := exists_compile_eq_ok.mp ⟨v, hv⟩
    cases hs.symm.trans hs'
    rw [validate_of_compile hv hs]
    refine List.filterMap_congr fun p hp => ?_
    obtain ⟨check, hcheck⟩ := hasCheck_iff.mp (hchecks p hp)
    exact errorFor_of_missing hcheck (get?_of_notObject hdocument p.key)

/-- The builtin check for strings replaces the one that was brought, a reason without words counts
as none, and both properties with the key `a` are checked. -/
theorem compile_then_validate_example :
    ∃ v, compile
        [("string", Check.any), ("Quiet", Check.failing ""), ("Strict", Check.failing "no")]
        (.object [⟨"a", .value "string", true⟩, ⟨"a", .value "Quiet", false⟩,
          ⟨"b", (Schema.value "Strict").orNull, false⟩, ⟨"c", .value "Strict", true⟩,
          ⟨"d", .value "Date", false⟩]) = .ok v ∧
      validate v (.object [("b", .null), ("a", .bool true), ("d", .string "2015-02-29")])
        = [⟨"a", some (.bool true), "expected string but found boolean"⟩, ⟨"c", none, "missing"⟩,
          ⟨"d", some (.string "2015-02-29"), "expected Date but was not instance"⟩] := by
  have hcompile := (compile_then_validate
    [("string", Check.any), ("Quiet", Check.failing ""), ("Strict", Check.failing "no")]
    (.object [⟨"a", .value "string", true⟩, ⟨"a", .value "Quiet", false⟩,
      ⟨"b", (Schema.value "Strict").orNull, false⟩, ⟨"c", .value "Strict", true⟩,
      ⟨"d", .value "Date", false⟩]))
  obtain ⟨v, hv⟩ := hcompile.1.mpr ⟨_, rfl, by decide⟩
  refine ⟨v, hv, ?_⟩
  rw [(hcompile.2.2.2 v _ hv rfl).1]
  rfl

end Validator
end AliasCheck
