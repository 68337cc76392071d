import AliasCheck.Proofs.Verdicts

/-!
# What verdicts depend on

A verdict has three sources: the schema, the checks that were brought, and the document. Of each of
them only a part is read. Of a property it is the key, the name of its type and whether that type
allows null, which is its signature. Of the checks it is the entries under names of types that have
no builtin check. Of the document it is what stands under the keys. Whatever agrees in these parts
gets the same verdict.
-/

namespace AliasCheck

/-- What a validator reads of a property. -/
structure Property.Signature where
  key : String
  typeName : String
  nullable : Bool
  deriving DecidableEq, Repr

/-- The signature of a property. -/
def Property.signature (p : Property) : Property.Signature :=
  ⟨p.key, p.schema.name, p.schema.nullable⟩

namespace Validator

/-- The tables hold the same check, or none, under the names of the types of these properties, those
with builtin checks aside. -/
def SameChecks (properties : List Property) (checks checks' : Table Check) : Prop :=
  ∀ p ∈ properties, p.schema.name ∉ Table.names Check.builtins →
    Table.get? p.schema.name checks = Table.get? p.schema.name checks'

/-- The documents hold the same value, or none, under the keys of these properties. -/
def SameValues (properties : List Property) (document document' : Json) : Prop :=
  ∀ p ∈ properties, document.get? p.key = document'.get? p.key

variable {checks checks' : Table Check} {s s' : Schema} {properties properties' : List Property}
  {document document' : Json} {v : Validator}

/-! ## Compiling -/

/-- The check for a property with this signature. -/
def compileSignature (checks : Table Check) (sig : Property.Signature) :
    Except ConfigError KeyedCheck :=
  match checkFor checks sig.typeName with
  | some check => .ok ⟨sig.key, guarded sig.nullable check⟩
  | none => .error (.missingCheck sig.key sig.typeName)

theorem compileProperty_eq_signature (checks : Table Check) (p : Property) :
    compileProperty (inForce checks) p = compileSignature checks p.signature := by
  rw [compileProperty, get?_inForce]
  rfl

/-- Only the signatures of the properties are compiled. -/
theorem compile_eq_signatures (hs : s.properties? = some properties) :
    compile checks s = (properties.map Property.signature).mapM (compileSignature checks) := by
  rw [compile_of_properties hs, List.mapM_map]
  exact mapM_congr fun p _ => compileProperty_eq_signature checks p

theorem checkFor_congr {name : String} (h : name ∉ Table.names Check.builtins →
    Table.get? name checks = Table.get? name checks') :
    checkFor checks name = checkFor checks' name := by
  unfold checkFor
  by_cases hbuiltin : name ∈ Table.names Check.builtins
  · obtain ⟨check, hcheck⟩ := Option.isSome_iff_exists.mp (Table.isSome_get?_iff.mpr hbuiltin)
    rw [hcheck, Option.some_or, Option.some_or]
  · rw [h hbuiltin]

theorem compile_congr (hs : s.properties? = some properties)
    (hs' : s'.properties? = some properties')
    (hsignatures : properties.map Property.signature = properties'.map Property.signature)
    (hchecks : SameChecks properties checks checks') : compile checks s = compile checks' s' := by
  rw [compile_eq_signatures hs, compile_eq_signatures hs', ← hsignatures]
  refine mapM_congr fun sig hsig => ?_
  obtain ⟨p, hp, rfl⟩ := List.mem_map.mp hsig
  unfold compileSignature
  rw [show checkFor checks p.signature.typeName = checkFor checks' p.signature.typeName from
    checkFor_congr (hchecks p hp)]

/-- A check that replaces a builtin one, or that no type asks for, has no influence. -/
theorem sameChecks_insert {name : String}
    (h : name ∈ Table.names Check.builtins ∨ ∀ p ∈ properties, p.schema.name ≠ name)
    (check : Check) : SameChecks properties (Table.insert name check checks) checks := by
  intro p hp hbuiltin
  rw [Table.get?_insert, if_neg]
  rintro rfl
  rcases h with hmem | hunused
  · exact hbuiltin hmem
  · exact hunused p hp rfl

/-! ## Validating -/

/-- A validator looks under the keys of the properties and nowhere else. -/
theorem key_of_mem_compile (hs : s.properties? = some properties) (hv : compile checks s = .ok v)
    {c : KeyedCheck} (hc : c ∈ v) : ∃ p ∈ properties, c.key = p.key := by
  rw [compile_of_properties hs] at hv
  obtain ⟨p, hp, hcheck⟩ := exists_of_mem_mapM hv hc
  obtain ⟨check, -, rfl⟩ := compileProperty_eq_ok.mp hcheck
  exact ⟨p, hp, rfl⟩

theorem validate_congr (hs : s.properties? = some properties) (hv : compile checks s = .ok v)
    (hvalues : SameValues properties document document') :
    validate v document = validate v document' := by
  refine List.filterMap_congr fun c hc => ?_
  obtain ⟨p, hp, hkey⟩ := key_of_mem_compile hs hv hc
  unfold errorOf
  rw [hkey, hvalues p hp]

/-- Members under other keys have no influence. -/
theorem sameValues_append (members : List (String × Json)) {more : List (String × Json)}
    (h : ∀ p ∈ properties, p.key ∉ Table.names more) :
    SameValues properties (.object (members ++ more)) (.object members) := by
  intro p hp
  show Table.get? p.key (members ++ more) = Table.get? p.key members
  rw [Table.get?_append, Table.get?_eq_none.mpr (h p hp), Option.or_none]

/-- Neither has the order of the members. -/
theorem sameValues_perm {members members' : List (String × Json)} (h : members.Perm members')
    (hnodup : (Table.names members).Nodup) :
    SameValues properties (.object members) (.object members') :=
  fun p _ => Table.get?_perm h hnodup p.key

/-! ## Verdicts -/

/-- Object types whose properties have the same signatures, tables that hold the same checks for
them, and documents that hold the same values under their keys: the same validator or the same error
comes of it, and the same errors are found. So it has no influence which keys are optional and what
is inside the types of the properties, which checks were brought for other types or for builtin
ones, what else a document holds, and in which order. -/
theorem compile_then_validate_congr (hs : s.properties? = some properties)
    (hs' : s'.properties? = some properties')
    (hsignatures : properties.map Property.signature = properties'.map Property.signature)
    (hchecks : SameChecks properties checks checks')
    (hvalues : SameValues properties document document') :
    compile checks s = compile checks' s' ∧
    (∀ v, compile checks s = .ok v → validate v document = validate v document') ∧
    (∀ name check, (name ∈ Table.names Check.builtins ∨ ∀ p ∈ properties, p.schema.name ≠ name) →
      compile (Table.insert name check checks) s = compile checks s) ∧
    (∀ v members more, compile checks s = .ok v → (∀ p ∈ properties, p.key ∉ Table.names more) →
      validate v (.object (members ++ more)) = validate v (.object members)) ∧
    ∀ v members members', compile checks s = .ok v → (Table.names members).Nodup →
      members.Perm members' → validate v (.object members) = validate v (.object members') := by
  refine ⟨compile_congr hs hs' hsignatures hchecks, fun v hv => validate_congr hs hv hvalues, ?_,
    ?_, ?_⟩
  · intro name check hname
    exact compile_congr hs hs rfl (sameChecks_insert hname check)
  · intro v members more hv hmore
    exact validate_congr hs hv (sameValues_append members hmore)
  · intro v members members' hv hnodup hperm
    exact validate_congr hs hv (sameValues_perm hperm hnodup)

/-- Both types have an `a` of type `ID` and a `b` of type `Array` that allows null, and little else
in common; the tables agree on these two names; and the documents agree on `a`. -/
theorem compile_then_validate_congr_example :
    ∃ s s' v,
      s = Schema.object [⟨"a", .value "ID", true⟩,
        ⟨"b", (Schema.generic "Array" [.value "string"]).orNull, false⟩] ∧
      s' = Schema.object [⟨"a", .generic "ID" [.value "number"], false⟩,
        ⟨"b", ((Schema.value "Array").withLiteral "x").orNull, true⟩] ∧
      compile [("ID", Check.ofType "number"), ("string", Check.any), ("Array", Check.present)] s
        = .ok v ∧
      compile [("Array", Check.present), ("Other", Check.failing "no"),
        ("ID", Check.ofType "number")] s' = .ok v ∧
      validate v (.object [("a", .bool true), ("c", .null)])
        = [⟨"a", some (.bool true), "expected number but found boolean"⟩] ∧
      validate v (.object [("c", .string "d"), ("a", .bool true)])
        = [⟨"a", some (.bool true), "expected number but found boolean"⟩] := by
  generalize hs : Schema.object [⟨"a", .value "ID", true⟩,
    ⟨"b", (Schema.generic "Array" [.value "string"]).orNull, false⟩] = s
  generalize hs' : Schema.object [⟨"a", .generic "ID" [.value "number"], false⟩,
    ⟨"b", ((Schema.value "Array").withLiteral "x").orNull, true⟩] = s'
  generalize hchecks : [("ID", Check.ofType "number"), ("string", Check.any),
    ("Array", Check.present)] = checks
  generalize hchecks' : [("Array", Check.present), ("Other", Check.failing "no"),
    ("ID", Check.ofType "number")] = checks'
  generalize hdocument : Json.object [("a", .bool true), ("c", .null)] = document
  generalize hdocument' : Json.object [("c", .string "d"), ("a", .bool true)] = document'
  have hproperties : s.properties? = some [⟨"a", .value "ID", true⟩,
      ⟨"b", (Schema.generic "Array" [.value "string"]).orNull, false⟩] := by
    subst hs
    rfl
  have hproperties' : s'.properties? = some [⟨"a", .generic "ID" [.value "number"], false⟩,
      ⟨"b", ((Schema.value "Array").withLiteral "x").orNull, true⟩] := by
    subst hs'
    rfl
  have hsameChecks : SameChecks [⟨"a", .value "ID", true⟩,
      ⟨"b", (Schema.generic "Array" [.value "string"]).orNull, false⟩] checks checks' := by
    subst hchecks hchecks'
    intro p hp _
    simp only [List.mem_cons, List.not_mem_nil, or_false] at hp
    rcases hp with rfl | rfl <;> rfl
  have hsameValues : SameValues [⟨"a", .value "ID", true⟩,
      ⟨"b", (Schema.generic "Array" [.value "string"]).orNull, false⟩] document document' := by
    subst hdocument hdocument'
    intro p hp
    simp only [List.mem_cons, List.not_mem_nil, or_false] at hp
    rcases hp with rfl | rfl <;> rfl
  obtain ⟨hcompile, hvalidate, -⟩ :=
    compile_then_validate_congr hproperties hproperties' (by decide) hsameChecks hsameValues
  obtain ⟨v, hv⟩ : ∃ v, compile checks s = .ok v := by
    subst hs hchecks
    exact ⟨_, rfl⟩
  have herrors : validate v document
      = [⟨"a", some (.bool true), "expected number but found boolean"⟩] := by
    subst hs hchecks hdocument
    cases hv
    rfl
  exact ⟨s, s', v, rfl, rfl, hv, hcompile ▸ hv, herrors, hvalidate v hv ▸ herrors⟩

end Validator
end AliasCheck
