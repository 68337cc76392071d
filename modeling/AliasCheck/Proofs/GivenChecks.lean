import AliasCheck.Command.Arguments
import AliasCheck.Proofs.JoinedInputs
import AliasCheck.Proofs.Rulings

/-!
# Checks that are given as arguments

The arguments of a check may name patterns, sorts and types for which every value will do, in any
order and more than once. Which of them counts for a type does not depend on where its kind of
option stands: builtin checks come first, then types for which every value will do, then the last
sort and then the last pattern. What is found in a document follows from what counts for the types
of its properties.
-/

namespace AliasCheck
namespace Arguments

/-! ## What options give -/

namespace Occurrence

/-- The name and the pattern that an option gives. -/
def pattern? : Occurrence → Option (String × Pattern)
  | ⟨.pattern, value :: _⟩ => (namedPattern value).toOption
  | _ => none

/-- The name and the sort that an option gives. -/
def sort? : Occurrence → Option (String × String)
  | ⟨.sort, value :: _⟩ => (pair value).toOption
  | _ => none

/-- The name that an option gives for which every value will do. -/
def unchecked? : Occurrence → Option String
  | ⟨.unchecked, value :: _⟩ => some value
  | _ => none

end Occurrence

/-- Settings have come to hold what options give, behind what they held before. -/
structure Settings.Gains (s s' : Settings) (given : List Occurrence) : Prop where
  patterns : s'.patterns = s.patterns ++ given.filterMap Occurrence.pattern?
  sorts : s'.sorts = s.sorts ++ given.filterMap Occurrence.sort?
  unchecked : s'.unchecked = s.unchecked ++ given.filterMap Occurrence.unchecked?

section Gains

variable {s s' s'' : Settings} {o : Occurrence} {given more : List Occurrence}

theorem Settings.Gains.refl (s : Settings) : s.Gains s [] :=
  ⟨(List.append_nil _).symm, (List.append_nil _).symm, (List.append_nil _).symm⟩

theorem Settings.Gains.trans (h : s.Gains s' given) (h' : s'.Gains s'' more) :
    s.Gains s'' (given ++ more) := by
  constructor
  · rw [h'.patterns, h.patterns, List.filterMap_append, List.append_assoc]
  · rw [h'.sorts, h.sorts, List.filterMap_append, List.append_assoc]
  · rw [h'.unchecked, h.unchecked, List.filterMap_append, List.append_assoc]

/-- An option adds what it gives, and nothing else. -/
theorem Settings.gains_add (h : s.add o = .ok s') : s.Gains s' [o] := by
  obtain ⟨key, values⟩ := o
  have hempty {α : Type} (xs : List α) : xs = xs ++ [] := (List.append_nil xs).symm
  cases key with
  | help => cases h
  | linewise | verbose =>
    obtain ⟨_, -, hpure⟩ := bind_eq_ok.mp h
    cases hpure
    exact ⟨hempty _, hempty _, hempty _⟩
  | file | out | source | registry | typeName =>
    cases values with
    | nil => cases h
    | cons value rest =>
      obtain ⟨_, -, hpure⟩ := bind_eq_ok.mp h
      cases hpure
      exact ⟨hempty _, hempty _, hempty _⟩
  | input =>
    cases values with
    | nil => cases h
    | cons value rest =>
      cases h
      exact ⟨hempty _, hempty _, hempty _⟩
  | pattern =>
    cases values with
    | nil => cases h
    | cons value rest =>
      obtain ⟨entry, hentry, hpure⟩ := bind_eq_ok.mp h
      cases hpure
      have hgiven : [⟨.pattern, value :: rest⟩].filterMap Occurrence.pattern? = [entry] := by
        simp [Occurrence.pattern?, hentry, Except.toOption]
      exact ⟨congrArg (s.patterns ++ ·) hgiven.symm, hempty _, hempty _⟩
  | sort =>
    cases values with
    | nil => cases h
    | cons value rest =>
      obtain ⟨entry, hentry, hpure⟩ := bind_eq_ok.mp h
      cases hpure
      have hgiven : [⟨.sort, value :: rest⟩].filterMap Occurrence.sort? = [entry] := by
        simp [Occurrence.sort?, hentry, Except.toOption]
      exact ⟨hempty _, congrArg (s.sorts ++ ·) hgiven.symm, hempty _⟩
  | unchecked =>
    cases values with
    | nil => cases h
    | cons value rest =>
      cases h
      exact ⟨hempty _, hempty _, rfl⟩

/-- Many options add what they give, each behind those before it. -/
theorem Settings.gains_foldlM (h : given.foldlM Settings.add s = .ok s') : s.Gains s' given := by
  induction given generalizing s with
  | nil =>
    cases h
    exact .refl _
  | cons o given ih =>
    rw [List.foldlM_cons] at h
    obtain ⟨middle, hadd, hrest⟩ := bind_eq_ok.mp h
    exact (gains_add hadd).trans (ih hrest)

theorem exists_of_settings {options : Options} {arguments : List String}
    (h : settings options arguments = .ok s) :
    ∃ given, Reading.takeAll options .start arguments = (given, none) ∧
      Settings.start.Gains s given := by
  rw [settings] at h
  cases htake : Reading.takeAll options .start arguments with
  | mk given failure =>
    rw [htake] at h
    obtain ⟨_, hfold, hrest⟩ := bind_eq_ok.mp h
    cases failure with
    | some e => cases hrest
    | none =>
      cases hrest
      exact ⟨given, rfl, Settings.gains_foldlM hfold⟩

/-- A check has the settings that were taken up. -/
theorem Settings.check_eq_ok {options : CheckOptions} (h : s.check = .ok (.check options)) :
    options.patterns = s.patterns ∧ options.sorts = s.sorts ∧
      options.unchecked = s.unchecked := by
  simp only [Settings.check] at h
  split at h
  · cases h
  all_goals
    first
    | cases h
    | split at h
      · cases h
      · cases h
        exact ⟨rfl, rfl, rfl⟩

end Gains

end Arguments

/-! ## Which check counts -/

open Arguments (Occurrence)

/-- The names of the builtin checks. -/
def builtinNames : List String := ["string", "number", "boolean", "Date"]

/-- What is asked of the types of a name, by what options give. -/
inductive Resolves (given : List Occurrence) : (name : String) → Ruling → Prop where
  | builtin {name} (mem : name ∈ ["string", "number", "boolean"]) :
    Resolves given name (.sort name)
  | date : Resolves given "Date" .date
  | unchecked {name} (new : name ∉ builtinNames)
    (mem : name ∈ given.filterMap Occurrence.unchecked?) : Resolves given name .unchecked
  | sort {name before sort after} (new : name ∉ builtinNames)
    (checked : name ∉ given.filterMap Occurrence.unchecked?)
    (last : given.filterMap Occurrence.sort? = before ++ (name, sort) :: after)
    (later : name ∉ Table.names after) : Resolves given name (.sort sort)
  | pattern {name before p after} (new : name ∉ builtinNames)
    (checked : name ∉ given.filterMap Occurrence.unchecked?)
    (unsorted : name ∉ Table.names (given.filterMap Occurrence.sort?))
    (last : given.filterMap Occurrence.pattern? = before ++ (name, p) :: after)
    (later : name ∉ Table.names after) : Resolves given name (.pattern p)

/-- A name is that of a builtin check, or options give something for it. -/
def IsNamed (given : List Occurrence) (name : String) : Prop :=
  name ∈ builtinNames ∨ name ∈ given.filterMap Occurrence.unchecked? ∨
    name ∈ Table.names (given.filterMap Occurrence.sort?) ∨
    name ∈ Table.names (given.filterMap Occurrence.pattern?)

instance (given : List Occurrence) (name : String) : Decidable (IsNamed given name) :=
  inferInstanceAs (Decidable (_ ∨ _))

/-- What the builtin checks ask. -/
def builtinRulings : Table Ruling :=
  [("string", .sort "string"), ("number", .sort "number"), ("boolean", .sort "boolean"),
    ("Date", .date)]

/-- What options ask of the types of a name, if they give anything for it. -/
def givenRuling (patterns : Table Pattern) (sorts : Table String) (unchecked : List String)
    (name : String) : Option Ruling :=
  if name ∈ unchecked then some .unchecked
  else ((Table.get? name sorts.reverse).map .sort).or
    ((Table.get? name patterns.reverse).map .pattern)

/-- What is asked of the types of a name, if anything is known of it. -/
def rulingFor (given : List Occurrence) (name : String) : Option Ruling :=
  (Table.get? name builtinRulings).or <|
    givenRuling (given.filterMap Occurrence.pattern?) (given.filterMap Occurrence.sort?)
      (given.filterMap Occurrence.unchecked?) name

/-- The checks that options ask for are those of what they ask. -/
theorem CheckOptions.get?_checks (options : CheckOptions) (name : String) :
    Table.get? name options.checks
      = (givenRuling options.patterns options.sorts options.unchecked name).map Ruling.check := by
  have hchecks : options.checks = Table.merge
      (Table.merge (Table.merge [] (options.patterns.map fun e => (e.1, Check.ofPattern e.2)))
        (options.sorts.map fun e => (e.1, Check.ofType e.2)))
      (options.unchecked.map fun name => (name, Check.any)) := by
    simp only [checks, Table.merge, List.foldl_map]
  have hnone : Table.get? name ([] : Table Check) = none := rfl
  rw [hchecks, Table.get?_merge_reverse, Table.get?_merge_reverse, Table.get?_merge_reverse]
  simp only [← List.map_reverse, Table.get?_map, Table.get?_map_const, List.mem_reverse, hnone,
    Option.or_none, givenRuling]
  split
  · rfl
  · rw [Option.none_or, Option.map_or, Option.map_map, Option.map_map]
    rfl

/-- The check for the types of a name asks what is asked of them. -/
theorem checkFor_eq_map_check {given : List Occurrence} {options : CheckOptions}
    (hpatterns : options.patterns = given.filterMap Occurrence.pattern?)
    (hsorts : options.sorts = given.filterMap Occurrence.sort?)
    (hunchecked : options.unchecked = given.filterMap Occurrence.unchecked?) (name : String) :
    Validator.checkFor options.checks name = (rulingFor given name).map Ruling.check := by
  have hbuiltins : Check.builtins = builtinRulings.map fun e => (e.1, e.2.check) := rfl
  rw [Validator.checkFor, rulingFor, Option.map_or, hbuiltins, Table.get?_map,
    CheckOptions.get?_checks, hpatterns, hsorts, hunchecked]

/-! ### The one that counts -/

section Resolves

variable {given : List Occurrence} {name : String} {ruling : Ruling}

/-- A builtin check counts whatever options give. -/
theorem resolves_iff_of_builtin (h : name ∈ builtinNames) :
    Resolves given name ruling ↔ Table.get? name builtinRulings = some ruling := by
  have hnames : name = "string" ∨ name = "number" ∨ name = "boolean" ∨ name = "Date" := by
    simpa [builtinNames] using h
  constructor
  · intro hr
    cases hr with
    | builtin hmem =>
      have hsorts : name = "string" ∨ name = "number" ∨ name = "boolean" := by simpa using hmem
      rcases hsorts with rfl | rfl | rfl <;> rfl
    | date => rfl
    | unchecked hnew | sort hnew | pattern hnew => exact absurd h hnew
  · rcases hnames with rfl | rfl | rfl | rfl
    · rintro ⟨⟩
      exact .builtin (by decide)
    · rintro ⟨⟩
      exact .builtin (by decide)
    · rintro ⟨⟩
      exact .builtin (by decide)
    · rintro ⟨⟩
      exact .date

/-- Where no check is builtin, what options give counts. -/
theorem resolves_iff_of_new (h : name ∉ builtinNames) :
    Resolves given name ruling ↔
      givenRuling (given.filterMap Occurrence.pattern?) (given.filterMap Occurrence.sort?)
        (given.filterMap Occurrence.unchecked?) name = some ruling := by
  rw [givenRuling]
  constructor
  · intro hr
    cases hr with
    | builtin hmem => exact absurd (List.mem_append_left ["Date"] hmem) h
    | date => exact absurd (by decide) h
    | unchecked _ hmem => rw [if_pos hmem]
    | sort _ hchecked hlast hlater =>
      rw [if_neg hchecked, Table.get?_reverse_eq_some.mpr ⟨_, _, hlast, hlater⟩]
      rfl
    | pattern _ hchecked hunsorted hlast hlater =>
      have hnone : Table.get? name (given.filterMap Occurrence.sort?).reverse = none :=
        Table.get?_eq_none.mpr (by simpa [Table.names] using hunsorted)
      rw [if_neg hchecked, hnone, Table.get?_reverse_eq_some.mpr ⟨_, _, hlast, hlater⟩]
      rfl
  · intro hr
    split at hr
    · rename_i hmem
      cases hr
      exact .unchecked h hmem
    · rename_i hmem
      rcases Option.or_eq_some_iff.mp hr with hsort | ⟨hnone, hpattern⟩
      · obtain ⟨sort, hlast, rfl⟩ := Option.map_eq_some_iff.mp hsort
        obtain ⟨before, after, hsplit, hlater⟩ := Table.get?_reverse_eq_some.mp hlast
        exact .sort h hmem hsplit hlater
      · obtain ⟨p, hlast, rfl⟩ := Option.map_eq_some_iff.mp hpattern
        obtain ⟨before, after, hsplit, hlater⟩ := Table.get?_reverse_eq_some.mp hlast
        have hunsorted := Table.get?_eq_none.mp (Option.map_eq_none_iff.mp hnone)
        exact .pattern h hmem (by simpa [Table.names] using hunsorted) hsplit hlater

theorem resolves_iff : Resolves given name ruling ↔ rulingFor given name = some ruling := by
  rw [rulingFor]
  by_cases hbuiltin : name ∈ builtinNames
  · have hsome : (Table.get? name builtinRulings).isSome := Table.isSome_get?_iff.mpr hbuiltin
    rw [Option.or_of_isSome hsome]
    exact resolves_iff_of_builtin hbuiltin
  · have hnone : Table.get? name builtinRulings = none := Table.get?_eq_none.mpr hbuiltin
    rw [hnone, Option.none_or]
    exact resolves_iff_of_new hbuiltin

/-- Something is asked of the types of each name that is builtin or given, and of no others. -/
theorem exists_resolves_iff : (∃ ruling, Resolves given name ruling) ↔ IsNamed given name := by
  simp only [resolves_iff, ← Option.isSome_iff_exists, rulingFor, givenRuling, Option.isSome_or,
    Bool.or_eq_true, Table.isSome_get?_iff, IsNamed]
  refine or_congr Iff.rfl ?_
  split
  · simp [*]
  · simp [*, Table.isSome_get?_iff, Table.names]

end Resolves

namespace CheckOptions

variable {options : CheckOptions} {files : Files}

theorem validator_eq_error {r : Registry} {s : Schema} {error : ConfigError}
    (horigin : Registry.ofOrigin files options.origin = .ok r)
    (hname : Table.get? options.typeName r = some s)
    (hcompile : Validator.compile options.checks s = .error error) :
    options.validator files = .error (.badSchema error) := by
  unfold validator
  rw [horigin]
  simp only [bind, Except.bind, hname, hcompile]
  rfl

/-- Without a validator no document is looked at. -/
theorem findings_eq_error {error : RunError} (h : options.validator files = .error error) :
    options.findings files = .error error := by
  rw [findings, h]
  rfl

end CheckOptions

namespace Command

/-- What a check has taken up of its arguments. -/
theorem exists_of_ofArguments {arguments : List String} {options : CheckOptions}
    (h : ofArguments ("check" :: arguments) = .ok (.check options)) :
    ∃ given, Arguments.Reading.takeAll Arguments.checkOptions .start arguments = (given, none) ∧
      options.patterns = given.filterMap Occurrence.pattern? ∧
      options.sorts = given.filterMap Occurrence.sort? ∧
      options.unchecked = given.filterMap Occurrence.unchecked? := by
  obtain ⟨s, hs, hcheck⟩ := bind_eq_ok.mp h
  obtain ⟨given, htake, hgains⟩ := Arguments.exists_of_settings hs
  obtain ⟨hpatterns, hsorts, hunchecked⟩ := Arguments.Settings.check_eq_ok hcheck
  exact ⟨given, htake, hpatterns.trans hgains.patterns, hsorts.trans hgains.sorts,
    hunchecked.trans hgains.unchecked⟩

end Command
end AliasCheck
