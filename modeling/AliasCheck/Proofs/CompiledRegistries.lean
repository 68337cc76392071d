import AliasCheck.Proofs.Verdicts

/-!
# Compiling all object types of a registry

A registry is compiled entry by entry and all or nothing: either each object type has its validator,
which is the one that comes of the type alone, or the first object type that does not compile says
why. Entries of other types are passed over.
-/

namespace AliasCheck
namespace Validator

variable {checks : Table Check} {registry : Registry} {validators : Table Validator}
  {name : String} {s : Schema} {e : ConfigError}

/-- The entries of a registry that are compiled. -/
def objects (registry : Registry) : Registry := registry.filter fun entry => entry.2.isObject

/-- An entry that is compiled has a validator of its own. -/
def Compiles (checks : Table Check) (entry : String × Schema) : Prop :=
  entry.2.isObject → ∃ v, compile checks entry.2 = .ok v

/-- A validator that is bound to the name of an entry and comes of its type. -/
def IsBound (checks : Table Check) (entry : String × Schema) (bound : String × Validator) : Prop :=
  bound.1 = entry.1 ∧ compile checks entry.2 = .ok bound.2

/-- The validator for an entry under its name. -/
def compileEntry (checks : Table Check) (entry : String × Schema) :
    Except ConfigError (String × Validator) :=
  (compile checks entry.2).map fun v => (entry.1, v)

theorem compileEntry_eq_ok {entry : String × Schema} {bound : String × Validator} :
    compileEntry checks entry = .ok bound ↔ IsBound checks entry bound := by
  obtain ⟨n, v⟩ := bound
  rw [compileEntry, map_eq_ok]
  constructor
  · rintro ⟨w, hw, heq⟩
    cases heq
    exact ⟨rfl, hw⟩
  · rintro ⟨rfl, hv⟩
    exact ⟨v, hv, rfl⟩

theorem exists_compileEntry_eq_ok {entry : String × Schema} :
    (∃ bound, compileEntry checks entry = .ok bound) ↔ ∃ v, compile checks entry.2 = .ok v := by
  constructor
  · rintro ⟨bound, h⟩
    exact ⟨bound.2, (compileEntry_eq_ok.mp h).2⟩
  · rintro ⟨v, h⟩
    exact ⟨(entry.1, v), compileEntry_eq_ok.mpr ⟨rfl, h⟩⟩

theorem compileEntry_eq_error {entry : String × Schema} :
    compileEntry checks entry = .error e ↔ compile checks entry.2 = .error e := by
  rw [compileEntry]
  cases compile checks entry.2 <;> simp [Except.map]

theorem compileAll_eq_mapM (checks : Table Check) (registry : Registry) :
    compileAll checks registry = (objects registry).mapM (compileEntry checks) := rfl

theorem compileAll_eq_ok : compileAll checks registry = .ok validators ↔
    List.Forall₂ (IsBound checks) (objects registry) validators := by
  rw [compileAll_eq_mapM, mapM_eq_ok]
  simp only [compileEntry_eq_ok]

theorem exists_compileAll_eq_ok : (∃ validators, compileAll checks registry = .ok validators) ↔
    ∀ entry ∈ registry, Compiles checks entry := by
  rw [compileAll_eq_mapM, exists_mapM_eq_ok]
  simp only [exists_compileEntry_eq_ok, objects, List.mem_filter, and_imp, Compiles]

/-- The first object type that does not compile is the error. -/
theorem compileAll_eq_error : compileAll checks registry = .error e ↔
    ∃ before name s after, registry = before ++ (name, s) :: after ∧
      (∀ entry ∈ before, Compiles checks entry) ∧ s.isObject ∧ compile checks s = .error e := by
  rw [compileAll_eq_mapM, mapM_eq_error_iff]
  constructor
  · rintro ⟨before, ⟨name, s⟩, after, hsplit, hbefore, he⟩
    obtain ⟨first, rest, rfl, rfl, hrest⟩ := List.filter_eq_append_iff.mp hsplit
    obtain ⟨skipped, last, rfl, hskipped, hs, -⟩ := List.filter_eq_cons_iff.mp hrest
    refine ⟨first ++ skipped, name, s, last, (List.append_assoc ..).symm, ?_, hs,
      compileEntry_eq_error.mp he⟩
    intro entry hentry hobject
    rcases List.mem_append.mp hentry with hmem | hmem
    · exact exists_compileEntry_eq_ok.mp (hbefore entry (List.mem_filter.mpr ⟨hmem, hobject⟩))
    · exact absurd hobject (hskipped entry hmem)
  · rintro ⟨before, name, s, after, rfl, hbefore, hs, he⟩
    refine ⟨objects before, (name, s), objects after, ?_, ?_, compileEntry_eq_error.mpr he⟩
    · simp only [objects, List.filter_append, List.filter_cons, hs, if_true]
    · intro entry hentry
      obtain ⟨hmem, hobject⟩ := List.mem_filter.mp hentry
      exact exists_compileEntry_eq_ok.mpr (hbefore entry hmem hobject)

/-- What is found under the name of an object type is its validator. -/
theorem get?_of_compileAll (h : compileAll checks registry = .ok validators)
    (hnames : (Table.names registry).Nodup) (hs : Table.get? name registry = some s)
    (hobject : s.isObject) :
    ∃ v, Table.get? name validators = some v ∧ compile checks s = .ok v := by
  have hbound := compileAll_eq_ok.mp h
  have hsublist : (Table.names validators).Sublist (Table.names registry) := by
    rw [Table.names_of_forall₂ hbound fun _ _ h => h.1]
    exact List.filter_sublist.map Prod.fst
  have hmem : (name, s) ∈ objects registry :=
    List.mem_filter.mpr ⟨(Table.get?_eq_some hnames).mp hs, hobject⟩
  obtain ⟨⟨n, v⟩, hv, rfl, hcompile⟩ := exists_mem_of_forall₂ hbound hmem
  exact ⟨v, (Table.get?_eq_some (hnames.sublist hsublist)).mpr hv, hcompile⟩

/-- An entry that is no object type has no influence. -/
theorem compileAll_of_not_isObject {entry : String × Schema} (h : entry.2.isObject = false)
    (before after : Registry) :
    compileAll checks (before ++ entry :: after) = compileAll checks (before ++ after) := by
  simp only [compileAll_eq_mapM, objects, List.filter_append, List.filter_cons, h,
    Bool.false_eq_true, if_false]

/-- A registry compiles exactly if each of its object types does. Its validators then stand under
the names of the object types, in their order, and each is the one that comes of the type alone, so
it finds the same errors. Otherwise the error is that of the first object type that does not
compile. Entries of other types have no influence. -/
theorem compileAll_agrees (checks : Table Check) (registry : Registry) :
    ((∃ validators, compileAll checks registry = .ok validators) ↔
      ∀ entry ∈ registry, entry.2.isObject → ∃ v, compile checks entry.2 = .ok v) ∧
    (∀ validators, compileAll checks registry = .ok validators →
      List.Forall₂ (fun entry bound => bound.1 = entry.1 ∧ compile checks entry.2 = .ok bound.2)
        (registry.filter fun entry => entry.2.isObject) validators) ∧
    (∀ validators name s, compileAll checks registry = .ok validators →
      (Table.names registry).Nodup → Table.get? name registry = some s → s.isObject →
      ∃ v w, Table.get? name validators = some v ∧ compile checks s = .ok w ∧
        ∀ document, validate v document = validate w document) ∧
    (∀ e, compileAll checks registry = .error e ↔
      ∃ before name s after, registry = before ++ (name, s) :: after ∧
        (∀ entry ∈ before, entry.2.isObject → ∃ v, compile checks entry.2 = .ok v) ∧
        s.isObject ∧ compile checks s = .error e) ∧
    ∀ before entry after, registry = before ++ entry :: after → entry.2.isObject = false →
      compileAll checks registry = compileAll checks (before ++ after) := by
  refine ⟨exists_compileAll_eq_ok, fun validators h => compileAll_eq_ok.mp h, ?_,
    fun e => compileAll_eq_error, ?_⟩
  · intro validators name s h hnames hs hobject
    obtain ⟨v, hv, hcompile⟩ := get?_of_compileAll h hnames hs hobject
    exact ⟨v, v, hv, hcompile, fun document => rfl⟩
  · rintro before entry after rfl hentry
    exact compileAll_of_not_isObject hentry before after

/-- With a check for `ID` both object types have a validator. Without one the second of them is the
error. In neither case does it matter that there is no check for `Phone`. -/
theorem compileAll_agrees_example :
    ∃ user tel post : String × Schema,
      user = ("User", .object [⟨"name", .value "string", false⟩]) ∧
      tel = ("Tel", .value "Phone") ∧
      post = ("Post", .object [⟨"by", .value "ID", false⟩]) ∧
      (∃ validators v, compileAll [("ID", Check.any)] [user, tel, post] = .ok validators ∧
        Table.names validators = ["User", "Post"] ∧ Table.get? "User" validators = some v ∧
        validate v (.object [("name", .null)]) = [⟨"name", some .null, "missing"⟩]) ∧
      compileAll [] [user, tel, post] = .error (.missingCheck "by" "ID") ∧
      compileAll [] [user, tel, post] = compileAll [] [user, post] := by
  refine ⟨_, _, _, rfl, rfl, rfl, ?_, ?_, ?_⟩
  · obtain ⟨hok, hbound, hget, -, -⟩ := compileAll_agrees [("ID", Check.any)]
      [("User", .object [⟨"name", .value "string", false⟩]), ("Tel", .value "Phone"),
        ("Post", .object [⟨"by", .value "ID", false⟩])]
    obtain ⟨validators, hvalidators⟩ := hok.mpr <| List.forall_mem_cons.mpr ⟨fun _ => ⟨_, rfl⟩,
      List.forall_mem_cons.mpr ⟨nofun, List.forall_mem_singleton.mpr fun _ => ⟨_, rfl⟩⟩⟩
    obtain ⟨v, w, hv, hw, hsame⟩ := hget validators "User" _ hvalidators (by decide) rfl rfl
    refine ⟨validators, v, hvalidators, ?_, hv, ?_⟩
    · exact Table.names_of_forall₂ (hbound validators hvalidators) fun _ _ h => h.1
    · rw [hsame]
      cases hw
      rfl
  · refine ((compileAll_agrees [] _).2.2.2.1 _).mpr ⟨[_, _], _, _, [], rfl, ?_, rfl, rfl⟩
    exact List.forall_mem_cons.mpr ⟨fun _ => ⟨_, rfl⟩, List.forall_mem_singleton.mpr nofun⟩
  · exact (compileAll_agrees [] _).2.2.2.2 [_] _ [_] rfl rfl

end Validator
end AliasCheck
