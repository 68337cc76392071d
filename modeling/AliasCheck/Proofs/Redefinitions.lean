import Mathlib.Data.Finset.Card
import AliasCheck.Proofs.RegistryRoundTrip
import AliasCheck.Proofs.ShiftedPrograms

/-!
# Names that are declared more than once

The aliases of a program are entered into its registry one after the other, and a name that comes up
again takes the new type in its old place. So the order of a registry comes from the first
declarations and its types from the last ones, and nothing comes from any other statement.
-/

namespace AliasCheck

namespace Statement

/-- Only a declaration counts, or one that is exported once. -/
theorem declared?_eq_some {s : Statement} {a : Alias} :
    s.declared? = some a ↔ s = .declares a ∨ s = .exported (.declares a) := by
  cases s with
  | declares b => simp [declared?]
  | other => simp [declared?]
  | exported inner => cases inner <;> simp [declared?]

theorem declared?_eq_none {s : Statement} :
    s.declared? = none ↔ ∀ a, s ≠ .declares a ∧ s ≠ .exported (.declares a) := by
  simp only [Option.eq_none_iff_forall_ne_some, ne_eq, declared?_eq_some, not_or]

end Statement

namespace Registry

variable {program : Program} {name : String} {s : Schema}

/-- The entries that a program makes, in order. -/
def entries (program : Program) : Registry :=
  program.declarations.map fun a => (a.name, a.body.toSchema)

theorem names_entries (program : Program) :
    Table.names (entries program) = program.declarations.map Alias.name := List.map_map

/-- Names are where they were declared first. -/
theorem names_ofProgram (program : Program) :
    Table.names (ofProgram program) = (program.declarations.map Alias.name).eraseDups := by
  rw [← names_entries]
  exact (congrArg _ (ofProgram_eq_merge program)).trans (Table.names_merge_nil _)

/-- There is one entry for each name. -/
theorem length_ofProgram (program : Program) :
    (ofProgram program).length = (program.declarations.map Alias.name).toFinset.card := by
  have hsame : (program.declarations.map Alias.name).toFinset
      = (Table.names (ofProgram program)).toFinset := by
    rw [names_ofProgram]
    ext name
    simp only [List.mem_toFinset, List.mem_eraseDups]
  rw [hsame, List.toFinset_card_of_nodup (nodup_names_ofProgram program), Table.names,
    List.length_map]

/-- The type of a name is that of its last declaration. -/
theorem get?_ofProgram : Table.get? name (ofProgram program) = some s ↔
    ∃ before a after, program.declarations = before ++ a :: after ∧ a.name = name ∧
      (∀ b ∈ after, b.name ≠ name) ∧ s = a.body.toSchema := by
  rw [show ofProgram program = Table.merge [] (entries program) from ofProgram_eq_merge program,
    Table.get?_merge_nil]
  constructor
  · rintro ⟨before, after, h, hafter⟩
    obtain ⟨declared, rest, hsplit, -, hrest⟩ := List.map_eq_append_iff.mp h
    obtain ⟨a, later, rfl, ha, rfl⟩ := List.map_eq_cons_iff.mp hrest
    cases ha
    refine ⟨declared, a, later, hsplit, rfl, fun b hb heq => hafter ?_, rfl⟩
    rw [Table.names, List.map_map]
    exact List.mem_map.mpr ⟨b, hb, heq⟩
  · rintro ⟨before, a, after, h, rfl, hafter, rfl⟩
    refine ⟨before.map fun a => (a.name, a.body.toSchema),
      after.map fun a => (a.name, a.body.toSchema), ?_, ?_⟩
    · rw [entries, h, List.map_append, List.map_cons]
    · rw [Table.names, List.map_map]
      intro hmem
      obtain ⟨b, hb, heq⟩ := List.mem_map.mp hmem
      exact hafter b hb heq

/-- A statement that declares nothing leaves no trace. -/
theorem ofProgram_undeclared {st : Statement} (h : st.declared? = none) (before after : Program) :
    ofProgram (before ++ st :: after) = ofProgram (before ++ after) := by
  simp only [ofProgram, List.filterMap_append, List.filterMap_cons, h]

/-- The names of a registry are the distinct ones that a program declares, in the order of their
first declarations. Each has the type of its last declaration. Declarations are aliases, exported
once or not at all, and no other statement has any influence. -/
theorem ofProgram_redefinitions (program : Program) :
    Table.names (ofProgram program) = (program.declarations.map Alias.name).eraseDups ∧
    (ofProgram program).length = (program.declarations.map Alias.name).toFinset.card ∧
    (∀ name s, Table.get? name (ofProgram program) = some s ↔
      ∃ before a after, program.declarations = before ++ a :: after ∧ a.name = name ∧
        (∀ b ∈ after, b.name ≠ name) ∧ s = a.body.toSchema) ∧
    (∀ st a, Statement.declared? st = some a ↔ st = .declares a ∨ st = .exported (.declares a)) ∧
    ∀ before st after, program = before ++ st :: after →
      (∀ a, st ≠ .declares a ∧ st ≠ .exported (.declares a)) →
      ofProgram program = ofProgram (before ++ after) := by
  refine ⟨names_ofProgram program, length_ofProgram program, fun name s => get?_ofProgram,
    fun st a => Statement.declared?_eq_some, ?_⟩
  rintro before st after rfl hst
  exact ofProgram_undeclared (Statement.declared?_eq_none.mpr hst) before after

/-- Of three declarations of `A` the last one counts, in the place of the first. The declaration
that is exported twice does not. -/
theorem ofProgram_redefinitions_example :
    ∃ program before after : Program,
      program = before ++ .exported (.exported (.declares ⟨"C", [], .named "D"⟩)) :: after ∧
      Table.names (ofProgram program) = ["A", "B", "C"] ∧
      Table.get? "A" (ofProgram program) = some (.value "boolean") ∧
      ofProgram program = ofProgram (before ++ after) := by
  generalize hbefore : ([.declares ⟨"A", [], .keyword .string⟩, .other,
    .exported (.declares ⟨"B", ["T"], .named "A"⟩), .exported (.declares ⟨"A", [], .named "B"⟩),
    .declares ⟨"C", [], .keyword .any⟩] : Program) = before
  generalize hafter : ([.declares ⟨"B", [], .named "C"⟩,
    .declares ⟨"A", [], .keyword .boolean⟩, .other] : Program) = after
  obtain ⟨hnames, -, hget, -, hundeclared⟩ := ofProgram_redefinitions
    (before ++ .exported (.exported (.declares ⟨"C", [], .named "D"⟩)) :: after)
  refine ⟨_, before, after, rfl, ?_, ?_, hundeclared before _ after rfl (by simp)⟩
  · rw [hnames]
    subst hbefore hafter
    decide
  · refine (hget "A" _).mpr ⟨(Program.declarations (before ++ after)).take 5,
      ⟨"A", [], .keyword .boolean⟩, [], ?_, rfl, by simp, rfl⟩
    subst hbefore hafter
    rfl

end Registry

end AliasCheck
