import AliasCheck.Text.Parts

/-!
# Text that is cut into parts

What the parts of a text are when it is put together from them, and the lines of a text whose lines
have line feeds behind them, with carriage returns or without.
-/

namespace AliasCheck

section SplitAt

variable {separator : Char} {cs : List Char}

attribute [local simp] splitAt

theorem splitAt_ne_nil (separator : Char) (cs : List Char) : splitAt separator cs ≠ [] := by
  cases cs with
  | nil => exact List.cons_ne_nil _ _
  | cons c cs =>
    rw [splitAt]
    split
    · exact List.cons_ne_nil _ _
    · split <;> exact List.cons_ne_nil _ _

/-- The parts of a text with the separators between them are the text. -/
theorem join_splitAt {first : List Char} {more : List (List Char)}
    (h : splitAt separator cs = first :: more) :
    first ++ more.flatMap (separator :: ·) = cs := by
  induction cs generalizing first more with
  | nil =>
    cases h
    rfl
  | cons c cs ih =>
    rw [splitAt] at h
    split at h
    · rename_i hc
      cases h
      obtain ⟨part, parts, hrest⟩ := List.exists_cons_of_ne_nil (splitAt_ne_nil separator cs)
      rw [hrest, List.flatMap_cons, List.nil_append, List.cons_append, ih hrest, hc]
    · split at h
      · rename_i hrest
        exact absurd hrest (splitAt_ne_nil separator cs)
      · rename_i part parts hrest
        cases h
        rw [List.cons_append, ih hrest]

/-- A separator parts a text into two that are cut on their own. -/
theorem splitAt_append (separator : Char) (front rest : List Char) :
    splitAt separator (front ++ separator :: rest)
      = splitAt separator front ++ splitAt separator rest := by
  induction front with
  | nil => simp
  | cons c front ih =>
    rw [List.cons_append, splitAt, splitAt, ih]
    split
    · rfl
    · obtain ⟨part, parts, hfront⟩ := List.exists_cons_of_ne_nil (splitAt_ne_nil separator front)
      rw [hfront]
      rfl

/-- There is no separator in a part. -/
theorem notMem_of_mem_splitAt {part : List Char} (h : part ∈ splitAt separator cs) :
    separator ∉ part := by
  induction cs generalizing part with
  | nil =>
    rw [splitAt, List.mem_singleton] at h
    rw [h]
    exact List.not_mem_nil
  | cons c cs ih =>
    obtain ⟨first, more, hrest⟩ := List.exists_cons_of_ne_nil (splitAt_ne_nil separator cs)
    rw [splitAt] at h
    split at h
    · rcases List.mem_cons.mp h with rfl | hmem
      · exact List.not_mem_nil
      · exact ih hmem
    · rename_i hc
      rw [hrest] at h ih
      rcases List.mem_cons.mp h with rfl | hmem
      · have hfirst := ih List.mem_cons_self
        rw [List.mem_cons, not_or]
        exact ⟨Ne.symm hc, hfirst⟩
      · exact ih (List.mem_cons_of_mem _ hmem)

theorem splitAt_of_notMem (h : separator ∉ cs) : splitAt separator cs = [cs] := by
  induction cs with
  | nil => rfl
  | cons c cs ih =>
    have hc : c ≠ separator := fun heq => h (heq ▸ List.mem_cons_self)
    simp [hc, ih fun hmem => h (List.mem_cons_of_mem c hmem)]

end SplitAt

/-! ## Lines -/

section Lines

variable {line : List Char}

theorem dropReturn_of_notMem (h : '\r' ∉ line) : dropReturn line = line := by
  have hlast : line.getLast? ≠ some '\r' := fun hlast => h (List.mem_of_getLast? hlast)
  rw [dropReturn, if_neg hlast]

theorem dropReturn_append (line : List Char) : dropReturn (line ++ ['\r']) = line := by
  rw [dropReturn, if_pos List.getLast?_concat, List.dropLast_concat]

/-- Up to its line feed a text is a line. -/
theorem lines_append (h : '\n' ∉ line) (rest : List Char) :
    lines (line ++ '\n' :: rest) = dropReturn line :: lines rest := by
  obtain ⟨part, parts, hparts⟩ := List.exists_cons_of_ne_nil (splitAt_ne_nil '\n' rest)
  rw [lines, lines, splitAt_append, splitAt_of_notMem h, hparts]
  rfl

/-- A text without line feed is a line unless it is empty. -/
theorem lines_of_notMem (h : '\n' ∉ line) :
    lines line = if line.isEmpty then [] else [line] := by
  rw [lines, splitAt_of_notMem h]
  rfl

end Lines

end AliasCheck
