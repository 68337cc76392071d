import AliasCheck.Proofs.ReadWrittenJson

/-!
# How deep a JSON text nests

Readers of JSON text accept only so many lists and objects that are open at once. That number can be
counted in a text without reading it, and it can be computed from a value. For the text that is
written for a value both are the same.
-/

namespace AliasCheck
namespace Json

/-! ## In a text -/

/-- The most lists and objects that are open at once in a text before which `level` of them are
open. Brackets and braces in strings do not count: `quoted` says that the text begins in a string,
and `escaped` that a backslash of that string stands in front of it. -/
def openAtOnce : (quoted escaped : Bool) → (level : Nat) → List Char → Nat
  | _, _, level, [] => level
  | true, true, level, _ :: cs => openAtOnce true false level cs
  | true, false, level, c :: cs => openAtOnce (c ≠ '"') (c = '\\') level cs
  | false, _, level, c :: cs =>
    if c = '[' ∨ c = '{' then openAtOnce false false (level + 1) cs
    else if c = ']' ∨ c = '}' then max level (openAtOnce false false (level - 1) cs)
    else openAtOnce (c = '"') false level cs

/-- The most lists and objects that are open at once in a text, empty ones included. -/
def textNesting (text : List Char) : Nat := openAtOnce false false 0 text

/-- At least those count that are open at the beginning. -/
theorem le_openAtOnce (quoted escaped : Bool) (level : Nat) (cs : List Char) :
    level ≤ openAtOnce quoted escaped level cs := by
  fun_induction openAtOnce quoted escaped level cs with
  | case1 => exact Nat.le_refl _
  | case2 _ _ _ ih => exact ih
  | case3 _ _ _ ih => exact ih
  | case4 _ _ _ _ _ ih => omega
  | case5 => exact Nat.le_max_left _ _
  | case6 _ _ _ _ _ _ ih => exact ih

/-! ## In a value -/

mutual

/-- The most lists and objects around any part of a value, the value itself included. -/
def nesting : Json → Nat
  | null | bool _ | number _ | string _ => 0
  | array items => itemsNesting items + 1
  | object members => membersNesting members + 1

/-- The greatest nesting of the items of a list. -/
def itemsNesting : List Json → Nat
  | [] => 0
  | x :: xs => max (nesting x) (itemsNesting xs)

/-- The greatest nesting of the values of an object. -/
def membersNesting : List (String × Json) → Nat
  | [] => 0
  | (_, x) :: xs => max (nesting x) (membersNesting xs)

end

/-! ## In the text of a value -/

/-- An escaped character leaves a string where it was. -/
theorem openAtOnce_escape (c : Char) (level : Nat) (cs : List Char) :
    openAtOnce true false level (escape c ++ cs) = openAtOnce true false level cs := by
  unfold escape
  split
  iterate 7 rfl
  rename_i hquote hslash _ _ _ _ _
  split
  · rename_i hsmall
    have hdigit : ∀ n < 16, Nat.digitChar n ≠ '"' ∧ Nat.digitChar n ≠ '\\' := by decide
    obtain ⟨h₁, h₂⟩ := hdigit (c.toNat / 16) (by omega)
    obtain ⟨h₃, h₄⟩ := hdigit (c.toNat % 16) (by omega)
    simp [openAtOnce, h₁, h₂, h₃, h₄]
  · have h₁ : c ≠ '"' := by simpa using hquote
    have h₂ : c ≠ '\\' := by simpa using hslash
    simp [openAtOnce, h₁, h₂]

theorem openAtOnce_writeString (s : String) (level : Nat) (cs : List Char) :
    openAtOnce false false level (writeString s ++ cs) = openAtOnce false false level cs := by
  have hbody : ∀ text : List Char, openAtOnce true false level (text.flatMap escape ++ '"' :: cs)
      = openAtOnce false false level cs := by
    intro text
    induction text with
    | nil => rfl
    | cons c text ih => rw [List.flatMap_cons, List.append_assoc, openAtOnce_escape, ih]
  simpa [writeString, openAtOnce] using hbody s.toList

theorem openAtOnce_newLine (n level : Nat) (cs : List Char) :
    openAtOnce false false level (newLine n ++ cs) = openAtOnce false false level cs := by
  have hspaces : ∀ k, openAtOnce false false level (List.replicate k ' ' ++ cs)
      = openAtOnce false false level cs := by
    intro k
    induction k with
    | zero => rfl
    | succ k ih => simpa [List.replicate_succ, openAtOnce] using ih
  simpa [newLine, openAtOnce] using hspaces (2 * n)

/-- The end of a list or an object takes away what its beginning added. -/
theorem openAtOnce_close {c : Char} (hc : c = ']' ∨ c = '}') (n level : Nat) (cs : List Char) :
    openAtOnce false false (level + 1) (newLine n ++ c :: cs)
      = max (level + 1) (openAtOnce false false level cs) := by
  rw [openAtOnce_newLine]
  rcases hc with rfl | rfl <;> simp [openAtOnce]

mutual

/-- A text that is written for a value adds the nesting of the value to the level at which it
stands. -/
theorem openAtOnce_writeLines (x : Json) (hx : x.NumberFree) (n level : Nat) (cs : List Char) :
    openAtOnce false false level (x.writeLines n ++ cs)
      = max (level + x.nesting) (openAtOnce false false level cs) := by
  have hlevel : max level (openAtOnce false false level cs) = openAtOnce false false level cs :=
    Nat.max_eq_right (le_openAtOnce false false level cs)
  match x with
  | .null | .bool true | .bool false => simp [writeLines, write, openAtOnce, nesting, hlevel]
  | .string s => simp [writeLines, write, nesting, openAtOnce_writeString, hlevel]
  | .array [] | .object [] =>
    simp [writeLines, openAtOnce, nesting, itemsNesting, membersNesting]
  | .array (y :: ys) =>
    obtain ⟨hy, hys⟩ := hx
    simp only [writeLines, List.cons_append, List.append_assoc, nesting, itemsNesting]
    rw [openAtOnce, if_pos (.inl rfl), openAtOnce_newLine, openAtOnce_writeLines y hy,
      openAtOnce_writeItemLines ys hys]
    omega
  | .object ((key, y) :: ys) =>
    obtain ⟨hy, hys⟩ := hx
    simp only [writeLines, List.cons_append, List.append_assoc, nesting, membersNesting]
    rw [openAtOnce, if_pos (.inr rfl), openAtOnce_newLine, openAtOnce_writeString]
    simp only [openAtOnce, Char.reduceEq, decide_false, or_self, if_false]
    rw [openAtOnce_writeLines y hy, openAtOnce_writeMemberLines ys hys]
    omega

theorem openAtOnce_writeItemLines (xs : List Json) (hxs : NumberFreeItems xs) (n level : Nat)
    (cs : List Char) :
    openAtOnce false false (level + 1) (writeItemLines n xs ++ cs)
      = max (level + 1 + itemsNesting xs) (openAtOnce false false level cs) := by
  match xs with
  | [] =>
    rw [writeItemLines, List.append_assoc]
    exact openAtOnce_close (.inl rfl) n level cs
  | y :: ys =>
    obtain ⟨hy, hys⟩ := hxs
    simp only [writeItemLines, List.cons_append, List.append_assoc, itemsNesting]
    simp only [openAtOnce, Char.reduceEq, decide_false, or_self, if_false]
    rw [openAtOnce_newLine, openAtOnce_writeLines y hy, openAtOnce_writeItemLines ys hys]
    omega

theorem openAtOnce_writeMemberLines (ms : List (String × Json)) (hms : NumberFreeMembers ms)
    (n level : Nat) (cs : List Char) :
    openAtOnce false false (level + 1) (writeMemberLines n ms ++ cs)
      = max (level + 1 + membersNesting ms) (openAtOnce false false level cs) := by
  match ms with
  | [] =>
    rw [writeMemberLines, List.append_assoc]
    exact openAtOnce_close (.inr rfl) n level cs
  | (key, y) :: ys =>
    obtain ⟨hy, hys⟩ := hms
    simp only [writeMemberLines, List.cons_append, List.append_assoc, membersNesting]
    simp only [openAtOnce, Char.reduceEq, decide_false, or_self, if_false]
    rw [openAtOnce_newLine, openAtOnce_writeString]
    simp only [openAtOnce, Char.reduceEq, decide_false, or_self, if_false]
    rw [openAtOnce_writeLines y hy, openAtOnce_writeMemberLines ys hys]
    omega

end

/-- The text of a value nests as deep as the value. -/
theorem textNesting_pretty {x : Json} (hx : x.NumberFree) :
    textNesting x.pretty.toList = x.nesting := by
  have h := openAtOnce_writeLines x hx 0 0 []
  simpa [textNesting, pretty, openAtOnce] using h

end Json
end AliasCheck
