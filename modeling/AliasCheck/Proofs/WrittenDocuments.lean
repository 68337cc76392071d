import AliasCheck.Proofs.Documents
import AliasCheck.Proofs.WrittenNumbers
import AliasCheck.Text.Unicode.Ranges

/-!
# Values that are written and read again

A value that can be held is read from its shortest text. What is read is the same value, except that
doubles are rounded once more. The text is a single line that is not blank.
-/

namespace AliasCheck
namespace Json

/-! ## Values that can be held -/

/-- The value can be held by a program that reads documents: no object has a key twice, all numbers
are in range, and no more lists and objects are open at once than a reader allows. -/
structure IsHeld (x : Json) : Prop where
  distinct : x.DistinctKeys
  numbers : x.AllNumbers Number.InRange
  shallow : x.nesting ≤ maxDepth

section AllNumbers

variable {p q : Number → Prop}

mutual

theorem AllNumbers.imp (h : ∀ n, p n → q n) {x : Json} (hx : x.AllNumbers p) :
    x.AllNumbers q := by
  match x with
  | .null | .bool _ | .string _ => trivial
  | .number n => exact h n hx
  | .array xs => exact AllNumbersIn.imp h hx
  | .object ms => exact AllNumbersOf.imp h hx

theorem AllNumbersIn.imp (h : ∀ n, p n → q n) {xs : List Json} (hxs : AllNumbersIn p xs) :
    AllNumbersIn q xs := by
  match xs with
  | [] => trivial
  | x :: xs => exact ⟨AllNumbers.imp h hxs.1, AllNumbersIn.imp h hxs.2⟩

theorem AllNumbersOf.imp (h : ∀ n, p n → q n) {ms : List (String × Json)}
    (hms : AllNumbersOf p ms) : AllNumbersOf q ms := by
  match ms with
  | [] => trivial
  | (key, x) :: ms => exact ⟨AllNumbers.imp h hms.1, AllNumbersOf.imp h hms.2⟩

end

end AllNumbers

/-! ## Other numbers in a value -/

section MapNumbers

variable (f : Number → Number)

mutual

theorem nesting_mapNumbers (x : Json) : (x.mapNumbers f).nesting = x.nesting := by
  match x with
  | .null | .bool _ | .string _ | .number _ => rfl
  | .array xs => exact congrArg (· + 1) (itemsNesting_mapItems xs)
  | .object ms => exact congrArg (· + 1) (membersNesting_mapMembers ms)

theorem itemsNesting_mapItems (xs : List Json) :
    itemsNesting (mapItems f xs) = itemsNesting xs := by
  match xs with
  | [] => rfl
  | x :: xs => rw [mapItems, itemsNesting, itemsNesting, nesting_mapNumbers, itemsNesting_mapItems]

theorem membersNesting_mapMembers (ms : List (String × Json)) :
    membersNesting (mapMembers f ms) = membersNesting ms := by
  match ms with
  | [] => rfl
  | (key, x) :: ms =>
    rw [mapMembers, membersNesting, membersNesting, nesting_mapNumbers, membersNesting_mapMembers]

end

theorem names_mapMembers (ms : List (String × Json)) :
    Table.names (mapMembers f ms) = Table.names ms := by
  induction ms with
  | nil => rfl
  | cons m ms ih => exact congrArg (m.1 :: ·) ih

mutual

theorem DistinctKeys.mapNumbers {x : Json} (hx : x.DistinctKeys) :
    (x.mapNumbers f).DistinctKeys := by
  match x with
  | .null | .bool _ | .string _ | .number _ => trivial
  | .array xs => exact DistinctItems.mapItems hx
  | .object ms =>
    refine ⟨?_, DistinctMembers.mapMembers hx.2⟩
    rw [names_mapMembers]
    exact hx.1

theorem DistinctItems.mapItems {xs : List Json} (hxs : DistinctItems xs) :
    DistinctItems (mapItems f xs) := by
  match xs with
  | [] => trivial
  | x :: xs => exact ⟨DistinctKeys.mapNumbers hxs.1, DistinctItems.mapItems hxs.2⟩

theorem DistinctMembers.mapMembers {ms : List (String × Json)} (hms : DistinctMembers ms) :
    DistinctMembers (mapMembers f ms) := by
  match ms with
  | [] => trivial
  | (key, x) :: ms => exact ⟨DistinctKeys.mapNumbers hms.1, DistinctMembers.mapMembers hms.2⟩

end

end MapNumbers

/-! ## Reading the shortest text -/

/-- The number that is read from the text of a number. -/
def Number.reread (n : Number) : Number :=
  match parse n.write with
  | .ok (.number m) => m
  | _ => n

/-- The value that is read from the text of a value. -/
def reread (x : Json) : Json := x.mapNumbers Number.reread

/-- A value is parsed from its shortest text, with its numbers as they are read. -/
theorem parse_write {f : Number → Number} {x : Json} (hx : x.AllNumbers fun n => n.ReadsAs (f n))
    (hdistinct : x.DistinctKeys) (hshallow : x.nesting ≤ maxDepth) :
    parse x.write = .ok (x.mapNumbers f) := by
  obtain ⟨node, stop, hread, hdenotes⟩ := Node.ofText_compact hx
  rw [compact, String.toList_ofList] at hread
  refine IsDocument.parse_eq_ok ⟨?_, hdistinct.mapNumbers f, ?_, ?_⟩
  · rw [hread]
    exact hdenotes
  · rw [nesting_mapNumbers]
    exact hshallow
  · rw [hread]
    rfl

theorem Number.reread_eq {n m : Number} (h : n.ReadsAs m) : n.reread = m := by
  have hparse := parse_write (f := fun _ => m) (x := .number n) h trivial (Nat.zero_le _)
  have hparse' : parse n.write = .ok (.number m) := hparse
  rw [reread, hparse']

theorem Number.readsAs_reread {n : Number} (h : n.InRange) : n.ReadsAs n.reread := by
  obtain ⟨m, hm⟩ := exists_readsAs h
  rw [reread_eq hm]
  exact hm

/-- A value that can be held is read again from its shortest text. -/
theorem IsHeld.parse_write {x : Json} (h : x.IsHeld) : parse x.write = .ok x.reread :=
  Json.parse_write (h.numbers.imp fun _ => Number.readsAs_reread) h.distinct h.shallow

/-! ## The shortest text is a line -/

/-- Nothing in the text ends a line or is another control character. -/
def Shown (text : List Char) : Prop := ∀ c ∈ text, 0x20 ≤ c.toNat

instance : DecidablePred Shown := List.decidableBAll fun c : Char => 0x20 ≤ c.toNat

section Shown

variable {text more : List Char}

theorem Shown.append (h : Shown text) (hmore : Shown more) : Shown (text ++ more) :=
  List.forall_mem_append.mpr ⟨h, hmore⟩

theorem Shown.cons {c : Char} (hc : 0x20 ≤ c.toNat) (h : Shown text) : Shown (c :: text) :=
  List.forall_mem_cons.mpr ⟨hc, h⟩

theorem shown_of_isDigit (h : ∀ d ∈ text, d.isDigit = true) : Shown text := by
  intro d hd
  have hdigit := h d hd
  simp only [Char.isDigit, Bool.and_eq_true, decide_eq_true_eq] at hdigit
  have hzero : '0'.toNat ≤ d.toNat := hdigit.1
  exact Nat.le_trans (by decide) hzero

theorem shown_of_exponentText {e : Option (Bool × List Char)} (h : Numeral.ExponentText e text) :
    Shown text := by
  cases h with
  | none => exact List.forall_mem_nil _
  | some he hsigns _ hall =>
    refine .cons ?_ (.append ?_ (shown_of_isDigit hall))
    · rcases he with rfl | rfl <;> decide
    · rcases hsigns with rfl | rfl | rfl <;> decide

theorem shown_of_isText {n : Numeral} (h : n.IsText text) : Shown text := by
  obtain ⟨exponent, hexponent, rfl⟩ := h.parts
  have hsign : Shown (if n.negative then ['-'] else []) := by
    cases n.negative <;> decide
  have hfraction : Shown (Numeral.fractionText n.fraction) := by
    rw [Numeral.fractionText]
    split
    · exact List.forall_mem_nil _
    · exact .cons (by decide) (shown_of_isDigit h.fraction)
  have hpower : Shown exponent := shown_of_exponentText hexponent
  exact hsign.append ((shown_of_isDigit h.whole.all).append (hfraction.append hpower))

theorem shown_escape (c : Char) : Shown (escape c) := by
  unfold escape
  split
  iterate 7 decide
  split
  · rename_i hsmall
    have hdigit : ∀ n < 16, 0x20 ≤ (Nat.digitChar n).toNat := by decide
    have hhigh := hdigit (c.toNat / 16) (by omega)
    have hlow := hdigit (c.toNat % 16) (by omega)
    simp [Shown, hhigh, hlow]
  · rename_i hbig
    exact .cons (Nat.le_of_not_lt hbig) (List.forall_mem_nil _)

theorem shown_writeString (s : String) : Shown (writeString s) := by
  refine .cons (by decide) (.append (fun c hc => ?_) (by decide))
  obtain ⟨d, -, hd⟩ := List.mem_flatMap.mp hc
  exact shown_escape d c hd

mutual

theorem shown_write (x : Json) (hx : x.AllNumbers Number.InRange) : Shown x.write := by
  match x with
  | .null | .bool true | .bool false | .array [] | .object [] => decide
  | .number n =>
    obtain ⟨m, numeral, htext, -⟩ := Number.exists_readsAs hx
    exact shown_of_isText htext
  | .string s => exact shown_writeString s
  | .array (x :: xs) =>
    exact .cons (by decide) ((shown_write x hx.1).append (shown_writeItems xs hx.2))
  | .object ((key, x) :: ms) =>
    exact .cons (by decide) ((shown_writeString key).append
      (.cons (by decide) ((shown_write x hx.1).append (shown_writeMembers ms hx.2))))

theorem shown_writeItems (xs : List Json) (hxs : AllNumbersIn Number.InRange xs) :
    Shown (writeItems xs) := by
  match xs with
  | [] => decide
  | x :: xs =>
    exact .cons (by decide) ((shown_write x hxs.1).append (shown_writeItems xs hxs.2))

theorem shown_writeMembers (ms : List (String × Json)) (hms : AllNumbersOf Number.InRange ms) :
    Shown (writeMembers ms) := by
  match ms with
  | [] => decide
  | (key, x) :: ms =>
    exact .cons (by decide) ((shown_writeString key).append
      (.cons (by decide) ((shown_write x hms.1).append (shown_writeMembers ms hms.2))))

end

end Shown

/-- The text of a value does not begin with white space of any kind. -/
theorem head_write (x : Json) (hx : x.AllNumbers Number.InRange) :
    ∃ c cs, x.write = c :: cs ∧ Unicode.isSpace c = false := by
  match x with
  | .null => exact ⟨'n', _, rfl, by decide⟩
  | .bool true => exact ⟨'t', _, rfl, by decide⟩
  | .bool false => exact ⟨'f', _, rfl, by decide⟩
  | .string s => exact ⟨'"', _, rfl, by decide⟩
  | .array [] | .array (_ :: _) => exact ⟨'[', _, rfl, by decide⟩
  | .object [] | .object (_ :: _) => exact ⟨'{', _, rfl, by decide⟩
  | .number n =>
    obtain ⟨m, numeral, htext, -⟩ := Number.exists_readsAs hx
    obtain ⟨c, cs, htext, hc⟩ := htext.head
    refine ⟨c, cs, htext, ?_⟩
    rcases hc with rfl | hdigit
    · decide
    · exact not_isSpace_of_isDigit hdigit

end Json
end AliasCheck
