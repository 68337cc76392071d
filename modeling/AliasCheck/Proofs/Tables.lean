import Mathlib.Data.List.Forall2
import Mathlib.Data.List.Induction
import AliasCheck.Table

/-!
# Entering many values into a table

Entering a value keeps names distinct. A table with distinct names is what comes of entering its own
entries one after the other, and entering them after those of another table is the same as entering
whatever they came from.
-/

namespace AliasCheck
namespace Table

variable {α : Type}

/-- A new name goes to the end. -/
theorem insert_of_notMem {name : String} {t : Table α} (h : name ∉ names t) (value : α) :
    insert name value t = t ++ [(name, value)] := by
  induction t with
  | nil => rfl
  | cons entry rest ih =>
    obtain ⟨n, v⟩ := entry
    simp only [names, List.map_cons, List.mem_cons, not_or] at h
    rw [insert, if_neg (Ne.symm h.1), ih h.2]
    rfl

/-- Names stay distinct. -/
theorem nodup_names_insert {t : Table α} (h : (names t).Nodup) (name : String) (value : α) :
    (names (insert name value t)).Nodup := by
  rw [names_insert]
  split
  · exact h
  · rename_i hnew
    rw [List.nodup_append]
    refine ⟨h, by simp, ?_⟩
    intro a ha b hb
    rw [List.mem_singleton] at hb
    rintro rfl
    exact hnew (hb ▸ ha)

/-- The table of the entries in `later`, entered one after the other after those of `t`. -/
theorem nodup_names_merge {t : Table α} (h : (names t).Nodup) (later : Table α) :
    (names (merge t later)).Nodup := by
  induction later generalizing t with
  | nil => exact h
  | cons entry later ih => exact ih (nodup_names_insert h entry.1 entry.2)

/-- A table with distinct names is made of its own entries. -/
theorem merge_eq_append {t later : Table α} (h : (names (t ++ later)).Nodup) :
    merge t later = t ++ later := by
  induction later generalizing t with
  | nil => simp [merge]
  | cons entry later ih =>
    have hnew : entry.1 ∉ names t := by
      intro hmem
      simp only [names, List.map_append, List.map_cons, List.nodup_append] at h
      exact h.2.2 _ hmem _ (List.mem_cons_self ..) rfl
    have hsplit : t ++ entry :: later = (t ++ [entry]) ++ later := by simp
    rw [hsplit] at h ⊢
    rw [merge, List.foldl_cons, insert_of_notMem hnew]
    exact ih h

/-- Tables that go with each other entry by entry have the same names. -/
theorem names_of_forall₂ {β : Type} {R : String × α → String × β → Prop} {t : Table α}
    {u : Table β} (h : List.Forall₂ R t u) (hR : ∀ x y, R x y → y.1 = x.1) :
    names u = names t := by
  induction h with
  | nil => rfl
  | @cons x y _ _ hfirst _ ih => exact congrArg₂ List.cons (hR x y hfirst) ih

/-! ## Looking up -/

theorem get?_eq_none {t : Table α} {name : String} : get? name t = none ↔ name ∉ names t := by
  induction t with
  | nil => simp [get?, names]
  | cons entry rest ih =>
    obtain ⟨n, v⟩ := entry
    by_cases h : n = name
    · simp [get?, names, h]
    · have hrest : name ∉ names ((n, v) :: rest) ↔ name ∉ names rest := by
        simp [names, Ne.symm h]
      rw [get?, if_neg h, ih, hrest]

theorem isSome_get?_iff {t : Table α} {name : String} :
    (get? name t).isSome ↔ name ∈ names t := by
  rw [← Decidable.not_iff_not, ← get?_eq_none, Option.not_isSome_iff_eq_none]

/-- Of two tables one behind the other the first counts. -/
theorem get?_append (t later : Table α) (name : String) :
    get? name (t ++ later) = (get? name t).or (get? name later) := by
  induction t with
  | nil => rfl
  | cons entry rest ih =>
    obtain ⟨n, v⟩ := entry
    rw [List.cons_append, get?, get?]
    split
    · rfl
    · exact ih

/-- What is found in a table is its first entry under the name. -/
theorem get?_eq_some_iff_append {t : Table α} {name : String} {value : α} :
    get? name t = some value ↔
      ∃ before after, t = before ++ (name, value) :: after ∧ name ∉ names before := by
  constructor
  · intro h
    induction t with
    | nil => cases h
    | cons entry rest ih =>
      obtain ⟨n, v⟩ := entry
      by_cases hn : n = name
      · subst hn
        rw [get?, if_pos rfl] at h
        cases h
        exact ⟨[], rest, rfl, List.not_mem_nil⟩
      · rw [get?, if_neg hn] at h
        obtain ⟨before, after, rfl, hbefore⟩ := ih h
        exact ⟨(n, v) :: before, after, rfl,
          List.not_mem_cons_of_ne_of_not_mem (Ne.symm hn) hbefore⟩
  · rintro ⟨before, after, rfl, hbefore⟩
    rw [get?_append, get?_eq_none.mpr hbefore, get?, if_pos rfl]
    rfl

/-- A new value goes to the place of the first entry under the name. -/
theorem insert_append {before : Table α} {name : String} (h : name ∉ names before)
    (value other : α) (after : Table α) :
    insert name other (before ++ (name, value) :: after) = before ++ (name, other) :: after := by
  induction before with
  | nil => exact if_pos rfl
  | cons entry before ih =>
    obtain ⟨n, v⟩ := entry
    simp only [names, List.map_cons, List.mem_cons, not_or] at h
    rw [List.cons_append, insert, if_neg (Ne.symm h.1), ih h.2]
    rfl

/-- A name that is there stands in front of an entry, and a new value goes to the same place. -/
theorem exists_of_get? {t : Table α} {name : String} {value : α} (h : get? name t = some value) :
    ∃ before after, t = before ++ (name, value) :: after ∧
      ∀ other, insert name other t = before ++ (name, other) :: after := by
  obtain ⟨before, after, rfl, hbefore⟩ := get?_eq_some_iff_append.mp h
  exact ⟨before, after, rfl, fun other => insert_append hbefore value other after⟩

/-- The entries that were entered later count. -/
theorem get?_merge (t : Table α) {later : Table α} (h : (names later).Nodup) (name : String) :
    get? name (merge t later) = (get? name later).or (get? name t) := by
  induction later generalizing t with
  | nil => rfl
  | cons entry later ih =>
    obtain ⟨n, v⟩ := entry
    simp only [names, List.map_cons, List.nodup_cons] at h
    have hrest := ih (insert n v t) h.2
    rw [get?_insert] at hrest
    rw [merge, List.foldl_cons]
    refine hrest.trans ?_
    by_cases hn : n = name
    · subst hn
      have hnone : get? n later = none := get?_eq_none.mpr h.1
      simp [get?, hnone]
    · simp [get?, hn, Ne.symm hn]

theorem get?_map {β : Type} (f : α → β) (t : Table α) (name : String) :
    get? name (t.map fun entry => (entry.1, f entry.2)) = (get? name t).map f := by
  induction t with
  | nil => rfl
  | cons entry t ih =>
    rw [List.map_cons, get?, get?]
    split
    · rfl
    · exact ih

/-- A table that holds one value under all of its names. -/
theorem get?_map_const (value : α) (listed : List String) (name : String) :
    get? name (listed.map fun name => (name, value))
      = if name ∈ listed then some value else none := by
  induction listed with
  | nil => rfl
  | cons first listed ih =>
    rw [List.map_cons, get?, ih]
    by_cases h : name = first
    · rw [if_pos h.symm, if_pos (h ▸ List.mem_cons_self)]
    · simp only [Ne.symm h, List.mem_cons, h, if_false, false_or]

theorem get?_eq_some {t : Table α} (h : (names t).Nodup) {name : String} {value : α} :
    get? name t = some value ↔ (name, value) ∈ t := by
  rw [get?_eq_some_iff_append]
  constructor
  · rintro ⟨before, after, rfl, -⟩
    simp
  · intro hmem
    obtain ⟨before, after, rfl⟩ := List.append_of_mem hmem
    refine ⟨before, after, rfl, fun hbefore => ?_⟩
    simp only [names, List.map_append, List.map_cons, List.nodup_append] at h
    exact h.2.2 _ hbefore _ List.mem_cons_self rfl

/-- When no name stands twice, the order does not matter. -/
theorem get?_perm {t u : Table α} (h : t.Perm u) (hnodup : (names t).Nodup) (name : String) :
    get? name t = get? name u := by
  have hnodup' : (names u).Nodup := (h.map Prod.fst).nodup_iff.mp hnodup
  refine Option.ext fun value => ?_
  rw [get?_eq_some hnodup, get?_eq_some hnodup', h.mem_iff]

/-! ## Entering what a table was made of -/

/-- The later of two values counts. -/
theorem insert_insert_self (t : Table α) (name : String) (v w : α) :
    insert name w (insert name v t) = insert name w t := by
  induction t with
  | nil => simp [insert]
  | cons entry rest ih =>
    obtain ⟨n, u⟩ := entry
    by_cases h : n = name <;> simp [insert, h, ih]

/-- A name that has its place already may be entered before or after another one. -/
theorem insert_comm {t : Table α} {name other : String} (hmem : name ∈ names t)
    (hne : name ≠ other) (v w : α) :
    insert name v (insert other w t) = insert other w (insert name v t) := by
  induction t with
  | nil => simp [names] at hmem
  | cons entry rest ih =>
    obtain ⟨n, u⟩ := entry
    by_cases hn : n = name
    · subst hn
      simp [insert, hne]
    · have hrest : name ∈ names rest := by
        simpa [names, Ne.symm hn] using hmem
      by_cases ho : n = other
      · subst ho
        simp [insert, hn]
      · simp [insert, hn, ho, ih hrest]

theorem insert_merge {t : Table α} {name : String} (hmem : name ∈ names t) {later : Table α}
    (hlater : name ∉ names later) (v : α) :
    insert name v (merge t later) = merge (insert name v t) later := by
  induction later generalizing t with
  | nil => rfl
  | cons entry later ih =>
    simp only [names, List.map_cons, List.mem_cons, not_or] at hlater
    have hmem' : name ∈ names (insert entry.1 entry.2 t) := by
      rw [names_insert]
      split
      · exact hmem
      · exact List.mem_append_left _ hmem
    rw [merge, List.foldl_cons]
    rw [merge, List.foldl_cons, ← insert_comm hmem hlater.1]
    exact ih hmem' hlater.2

/-- Entering a value into the later table enters it after both. -/
theorem merge_insert (t : Table α) {later : Table α} (h : (names later).Nodup) (name : String)
    (v : α) : merge t (insert name v later) = insert name v (merge t later) := by
  induction later generalizing t with
  | nil => rfl
  | cons entry later ih =>
    obtain ⟨n, w⟩ := entry
    simp only [names, List.map_cons, List.nodup_cons] at h
    by_cases hn : n = name
    · subst hn
      have hmem : n ∈ names (insert n w t) := by
        rw [names_insert]
        split
        · assumption
        · simp
      have hmerge := insert_merge hmem h.1 v
      rw [insert_insert_self] at hmerge
      simpa [insert, merge] using hmerge.symm
    · have hrest := ih (insert n w t) h.2
      simpa [insert, merge, hn] using hrest

/-- Entering the entries of a table is entering what these were entered from. -/
theorem merge_merge (t : Table α) {later : Table α} (h : (names later).Nodup)
    (entries : List (String × α)) :
    merge t (merge later entries) = merge (merge t later) entries := by
  induction entries generalizing later with
  | nil => rfl
  | cons entry entries ih =>
    have hstep := ih (nodup_names_insert h entry.1 entry.2)
    rw [merge_insert t h] at hstep
    exact hstep

/-! ## The first and the last of many values -/

theorem merge_concat (t later : Table α) (entry : String × α) :
    merge t (later ++ [entry]) = insert entry.1 entry.2 (merge t later) := List.foldl_append

/-- Of the values that are entered under a name the last one counts. -/
theorem get?_merge_reverse (t later : Table α) (name : String) :
    get? name (merge t later) = (get? name later.reverse).or (get? name t) := by
  induction later generalizing t with
  | nil => rfl
  | cons entry later ih =>
    obtain ⟨n, v⟩ := entry
    rw [List.reverse_cons, get?_append, Option.or_assoc]
    refine (ih (insert n v t)).trans (congrArg _ ?_)
    rw [get?_insert]
    by_cases hn : name = n
    · rw [if_pos hn, get?, if_pos hn.symm, Option.some_or]
    · rw [if_neg hn, get?, if_neg (Ne.symm hn)]
      rfl

/-- What is found from behind is the last entry under the name. -/
theorem get?_reverse_eq_some {t : Table α} {name : String} {value : α} :
    get? name t.reverse = some value ↔
      ∃ before after, t = before ++ (name, value) :: after ∧ name ∉ names after := by
  rw [get?_eq_some_iff_append]
  constructor
  · rintro ⟨before, after, h, hbefore⟩
    refine ⟨after.reverse, before.reverse, ?_, ?_⟩
    · rw [← List.reverse_reverse t, h]
      simp
    · simpa [names] using hbefore
  · rintro ⟨before, after, rfl, hafter⟩
    exact ⟨after.reverse, before.reverse, by simp, by simpa [names] using hafter⟩

/-- What is found in a table that is made of entries is the last of them under the name. -/
theorem get?_merge_nil {entries : Table α} {name : String} {value : α} :
    get? name (merge [] entries) = some value ↔
      ∃ before after, entries = before ++ (name, value) :: after ∧ name ∉ names after := by
  rw [get?_merge_reverse, show get? name ([] : Table α) = none from rfl, Option.or_none,
    get?_reverse_eq_some]

/-- The names of a table that is made of entries stand in the order in which they came up first. -/
theorem names_merge_nil (entries : Table α) :
    names (merge [] entries) = (names entries).eraseDups := by
  induction entries using List.reverseRecOn with
  | nil => rfl
  | append_singleton entries entry ih =>
    have hnames : names (entries ++ [entry]) = names entries ++ [entry.1] := List.map_append
    rw [merge_concat, names_insert, ih, hnames, List.eraseDups_append]
    by_cases hmem : entry.1 ∈ names entries
    · rw [if_pos (List.mem_eraseDups.mpr hmem)]
      simp [List.removeAll, hmem]
    · rw [if_neg (mt List.mem_eraseDups.mp hmem)]
      simp [List.removeAll, hmem]
      rfl

end Table
end AliasCheck
