import AliasCheck.Calendar
import AliasCheck.Json.Write
import AliasCheck.Pattern
import AliasCheck.Table

/-!
# Checks of single values

A check looks at what a document holds under one key, which may be nothing, and either accepts it or
says why not. Checks are plain functions: callers may bring their own.
-/

namespace AliasCheck

/-- Accepts what stands under a key, if anything does, or gives the reason why not. -/
abbrev Check := Option Json → Except String Unit

/-- There is a value, and it is not null. -/
def isPresent : Option Json → Bool
  | none | some .null => false
  | some _ => true

/-- The word for the sort of a value. Null counts as an object, and there is a word for no value. -/
def typeOf : Option Json → String
  | none => "undefined"
  | some (.bool _) => "boolean"
  | some (.number _) => "number"
  | some (.string _) => "string"
  | some .null | some (.array _) | some (.object _) => "object"

/-- A named class of values. -/
structure ValueClass where
  name : String
  /-- The value is an instance of the class. -/
  test : Json → Bool

/-- The class of dates: strings that are timestamps or plain dates. -/
def ValueClass.date : ValueClass where
  name := "Date"
  test
    | .string text => Calendar.isDate text
    | _ => false

namespace Check

/-- The reason for which a value that must be there is refused. -/
def missing : String := "missing"

/-- Accepts everything, also no value. -/
def any : Check := fun _ => .ok ()

/-- Accepts every value but null. -/
def present : Check := fun value => if isPresent value then .ok () else .error missing

/-- Accepts values whose sort has this name. -/
def ofType (expected : String) : Check := fun value =>
  if typeOf value = expected then .ok ()
  else .error s!"expected {expected} but found {typeOf value}"

/-- Accepts the instances of a class. -/
def instanceOf (c : ValueClass) : Check := fun value =>
  if value.any c.test then .ok () else .error s!"expected {c.name} but was not instance"

/-- A value as a text: a string as it is, anything else as JSON. -/
def textOf : Option Json → String
  | none => "undefined"
  | some (.string text) => text
  | some value => value.compact

/-- Accepts values whose text matches a pattern. -/
def ofPattern (p : Pattern) : Check := fun value =>
  if p.term.matchesIn (textOf value) then .ok ()
  else .error s!"could not match {textOf value} against {p.source}"

theorem ofType_eq_ok_iff {expected : String} {value : Option Json} :
    ofType expected value = .ok () ↔ typeOf value = expected := by
  rw [ofType]
  split <;> simp_all

theorem instanceOf_date_eq_ok_iff {value : Json} : instanceOf .date (some value) = .ok () ↔
    ∃ text, value = .string text ∧ Calendar.isDate text = true := by
  cases value with
  | string text =>
    show (if Calendar.isDate text = true then .ok () else .error _) = Except.ok () ↔ _
    by_cases h : Calendar.isDate text = true <;> simp [h]
  | _ => exact ⟨nofun, nofun⟩

/-- A value is accepted if the pattern matches its text. -/
theorem ofPattern_eq_ok_iff {p : Pattern} {value : Option Json} :
    ofPattern p value = .ok () ↔ p.term.matchesIn (textOf value) = true := by
  rw [ofPattern]
  split <;> simp_all

/-- Refuses everything. -/
def failing (reason : String) : Check := fun _ => .error reason

/-- The checks that need not be brought. -/
def builtins : Table Check :=
  [("string", ofType "string"), ("number", ofType "number"), ("boolean", ofType "boolean"),
    (ValueClass.date.name, instanceOf .date)]

end Check

end AliasCheck
