import AliasCheck.Proofs.PatternMatches
import AliasCheck.Proofs.Verdicts

/-!
# What is asked of values

Whether it is builtin or asked for by name, a check is of one of four kinds. For each of them it is
said here which values it lets pass and what it has against others, in terms of the values and not
of the check. So it is known what a validator made of such checks finds in a document.
-/

namespace AliasCheck

/-- What is asked of the values of a type. -/
inductive Ruling where
  /-- They are of the sort with this name. -/
  | sort (name : String)
  /-- They are dates. -/
  | date
  /-- Nothing is asked of them. -/
  | unchecked
  /-- Their text matches a pattern. -/
  | pattern (p : Pattern)

namespace Ruling

/-- The name of the sort of a value. -/
def sortName : Json → String
  | .bool _ => "boolean"
  | .number _ => "number"
  | .string _ => "string"
  | .null | .array _ | .object _ => "object"

/-- The text of a value: that of a string is its own, and any other value is written as JSON. -/
def subject : Json → String
  | .string text => text
  | x => x.compact

/-- A value is as it should be. -/
def Accepts : Ruling → Json → Prop
  | sort name, x => sortName x = name
  | date, x => ∃ text, x = .string text ∧ Calendar.isDate text = true
  | unchecked, _ => True
  | pattern p, x => p.Matches (subject x)

/-- What is said of a value that is not as it should be. -/
def reason : Ruling → Json → String
  | sort name, x => s!"expected {name} but found {sortName x}"
  | date, _ => "expected Date but was not instance"
  | unchecked, _ => ""
  | pattern p, x => s!"could not match {subject x} against {p.source}"

/-- The check that asks this. -/
def check : Ruling → Check
  | sort name => Check.ofType name
  | date => Check.instanceOf .date
  | unchecked => Check.any
  | pattern p => Check.ofPattern p

variable {ruling : Ruling} {x : Json}

theorem check_eq_ok_iff : ruling.check (some x) = .ok () ↔ ruling.Accepts x := by
  cases ruling with
  | sort name =>
    have hsort : typeOf (some x) = sortName x := by cases x <;> rfl
    rw [check, Check.ofType_eq_ok_iff, hsort]
    rfl
  | date => exact Check.instanceOf_date_eq_ok_iff
  | unchecked => exact iff_of_true rfl trivial
  | pattern p =>
    have htext : Check.textOf (some x) = subject x := by cases x <;> rfl
    rw [check, Check.ofPattern_eq_ok_iff, htext]
    exact Pattern.matchesIn_iff

instance : Decidable (ruling.Accepts x) :=
  decidable_of_iff (ruling.check (some x) = .ok ()) check_eq_ok_iff

/-- A check that does not let a value pass says what is against it. -/
theorem check_eq_error (h : ¬ ruling.Accepts x) :
    ruling.check (some x) = .error (ruling.reason x) := by
  have hfails : ruling.check (some x) ≠ .ok () := mt check_eq_ok_iff.mp h
  cases ruling with
  | sort name =>
    have hsort : typeOf (some x) = sortName x := by cases x <;> rfl
    rw [check, Check.ofType, hsort] at hfails ⊢
    exact if_neg fun heq => hfails (if_pos heq)
  | date => 
    rw [check, Check.instanceOf] at hfails ⊢
    exact if_neg fun heq => hfails (if_pos heq)
  | unchecked => exact absurd trivial h
  | pattern p =>
    have htext : Check.textOf (some x) = subject x := by cases x <;> rfl
    rw [check, Check.ofPattern, htext] at hfails ⊢
    exact if_neg fun heq => hfails (if_pos heq)

theorem reason_ne_empty (h : ¬ ruling.Accepts x) : ruling.reason x ≠ "" := by
  cases ruling with
  | sort name =>
    show s!"expected {name} but found {sortName x}" ≠ ""
    simp [toString]
  | date =>
    show "expected Date but was not instance" ≠ ""
    decide
  | unchecked => exact absurd trivial h
  | pattern p =>
    show s!"could not match {subject x} against {p.source}" ≠ ""
    simp [toString]

/-- What is found under the key of a property. Of a value that is missing or null nothing is asked;
it is refused unless the type allows null. -/
def errorIn (ruling : Ruling) (p : Property) (document : Json) : Option KeyedError :=
  match document.get? p.key with
  | none | some .null =>
    if p.schema.nullable then none else some ⟨p.key, document.get? p.key, "missing"⟩
  | some x => if ruling.Accepts x then none else some ⟨p.key, some x, ruling.reason x⟩

/-- If this is asked of the type of a property, the validator has just this against a document. -/
theorem errorFor_eq_errorIn {checks : Table Check} {p : Property}
    (h : Validator.checkFor checks p.schema.name = some ruling.check) (document : Json) :
    Validator.errorFor checks document p.key p.schema = ruling.errorIn p document := by
  rw [Validator.errorFor, h, errorIn]
  show (Validator.refusal ruling.check p.schema.nullable (document.get? p.key)).bind _ = _
  cases hvalue : document.get? p.key with
  | none => cases p.schema.nullable <;> rfl
  | some x =>
    by_cases hnull : x = .null
    · subst hnull
      cases p.schema.nullable <;> rfl
    · have hpresent : (match some x with
          | none | some .null =>
            if p.schema.nullable then none else some ⟨p.key, some x, "missing"⟩
          | some x => if ruling.Accepts x then none else some ⟨p.key, some x, ruling.reason x⟩)
          = if ruling.Accepts x then none
            else some (⟨p.key, some x, ruling.reason x⟩ : KeyedError) := by
        cases x with
        | null => exact absurd rfl hnull
        | _ => rfl
      rw [Validator.refusal_some _ _ hnull, hpresent]
      by_cases haccepts : ruling.Accepts x
      · rw [check_eq_ok_iff.mpr haccepts, if_pos haccepts]
        rfl
      · rw [check_eq_error haccepts, if_neg haccepts]
        exact if_neg (reason_ne_empty haccepts)

end Ruling
end AliasCheck
