/-!
# Tables by name

A table holds values under names and remembers in which order the names came up first. A name that
is entered again takes the new value and keeps its place.
-/

namespace AliasCheck

/-- Values under names, in the order in which the names were first entered. -/
abbrev Table (α : Type) := List (String × α)

namespace Table

variable {α : Type}

/-- Enters a value: in the place of the name if there is one, else at the end. -/
def insert (name : String) (value : α) : Table α → Table α
  | [] => [(name, value)]
  | (n, v) :: rest => if n = name then (n, value) :: rest else (n, v) :: insert name value rest

/-- The value under a name. -/
def get? (name : String) : Table α → Option α
  | [] => none
  | (n, v) :: rest => if n = name then some v else get? name rest

/-- Enters all of `later` after `t`, in order. -/
def merge (t later : Table α) : Table α :=
  later.foldl (fun t entry => insert entry.1 entry.2 t) t

/-- The names in a table, in order. -/
def names (t : Table α) : List String := t.map Prod.fst

/-- What is found in a table after an entry. -/
theorem get?_insert (t : Table α) (name other : String) (value : α) :
    get? other (insert name value t) = if other = name then some value else get? other t := by
  induction t with
  | nil => simp [insert, get?, eq_comm]
  | cons entry rest ih =>
    obtain ⟨n, v⟩ := entry
    by_cases h : n = name
    · by_cases h' : other = name <;> simp [insert, get?, h, h', Ne.symm]
    · by_cases h' : n = other
      · subst h'; simp [insert, get?, h]
      · simp [insert, get?, h, h', ih]

/-- A name that is there already keeps its place; a new one goes to the end. -/
theorem names_insert (t : Table α) (name : String) (value : α) :
    names (insert name value t) = if name ∈ names t then names t else names t ++ [name] := by
  induction t with
  | nil => simp [insert, names]
  | cons entry rest ih =>
    obtain ⟨n, v⟩ := entry
    by_cases h : n = name
    · simp [insert, names, h]
    · have h' : ¬ name = n := fun e => h e.symm
      simp only [names, insert, h, if_false, List.map_cons, List.mem_cons, h', false_or] at ih ⊢
      rw [ih]
      split <;> simp_all

end Table

end AliasCheck
