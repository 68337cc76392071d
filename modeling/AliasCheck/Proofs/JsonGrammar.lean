import AliasCheck.Proofs.JsonTokens

/-!
# The grammar of JSON texts

`Spelled` says which texts are JSON values, lists of items up to their end, or lists of members up
to theirs, and which trees they are read as. The reader makes that tree of such a text whatever
follows it (`Spelled.read`), and a tree without breakdown comes from such a text only
(`spelled_of_read`). So what is read does not depend on what stands behind the value.
-/

namespace AliasCheck
namespace Json

open Node

/-! ## The grammar -/

/-- What stands in front of an item or a member: blanks, and in front of a later one a comma with
blanks on both sides. -/
inductive Separator : (first : Bool) → List Char → Prop where
  | first {ws : List Char} (hws : Blanks ws) : Separator true ws
  | later {ws ws' : List Char} (hws : Blanks ws) (hws' : Blanks ws') :
      Separator false (ws ++ ',' :: ws')

/-- The parts of a JSON text that the grammar speaks about. -/
inductive Part where
  | value
  /-- The items of a list and its end; `first` says that none stands in front of them. -/
  | items (first : Bool)
  /-- The members of an object and its end. -/
  | fields (first : Bool)

/-- What a part is read as. -/
def Part.Value : Part → Type
  | value => Node
  | items _ => List Item
  | fields _ => List Field

/-- The text is this part of a JSON text, from the offset `start` to the offset `stop`. -/
inductive Spelled : (p : Part) → (start : Nat) → List Char → p.Value → (stop : Nat) → Prop where
  | null {start : Nat} : Spelled .value start ['n', 'u', 'l', 'l'] (.null (start + 4)) (start + 4)
  | trueWord {start : Nat} :
      Spelled .value start ['t', 'r', 'u', 'e'] (.bool true (start + 4)) (start + 4)
  | falseWord {start : Nat} :
      Spelled .value start ['f', 'a', 'l', 's', 'e'] (.bool false (start + 5)) (start + 5)
  | number {start : Nat} {text : List Char} {n : Numeral} (h : n.IsText text) :
      Spelled .value start text (.number (n.value (start + text.length)) (start + text.length))
        (start + text.length)
  | string {start stop : Nat} {text : List Char} {s : Except Fault String}
      (h : IsString (start + 1) text s stop) :
      Spelled .value start ('"' :: text) (.string s stop) stop
  | array {start stop : Nat} {text : List Char} {items : List Item}
      (h : Spelled (.items true) (start + 1) text items stop) :
      Spelled .value start ('[' :: text) (.array start items (.ok stop)) stop
  | object {start stop : Nat} {text : List Char} {fields : List Field}
      (h : Spelled (.fields true) (start + 1) text fields stop) :
      Spelled .value start ('{' :: text) (.object start fields (.ok stop)) stop
  | itemsEnd {first : Bool} {start : Nat} {ws : List Char} (hws : Blanks ws) :
      Spelled (.items first) start (ws ++ [']']) [] (start + ws.length + 1)
  | item {first : Bool} {start mid stop : Nat} {separator text more : List Char} {node : Node}
      {items : List Item} (hseparator : Separator first separator)
      (h : Spelled .value (start + separator.length) text node mid)
      (hs : Spelled (.items false) mid more items stop) :
      Spelled (.items first) start (separator ++ (text ++ more))
        (⟨start + separator.length, node, settleItem ⟨mid, more⟩⟩ :: items) stop
  | fieldsEnd {first : Bool} {start : Nat} {ws : List Char} (hws : Blanks ws) :
      Spelled (.fields first) start (ws ++ ['}']) [] (start + ws.length + 1)
  | field {first : Bool} {start afterKey mid stop : Nat}
      {separator keyText ws ws' text more : List Char} {key : Except Fault String} {node : Node}
      {fields : List Field} (hseparator : Separator first separator)
      (hkey : IsString (start + separator.length + 1) keyText key afterKey)
      (hws : Blanks ws) (hws' : Blanks ws')
      (h : Spelled .value (afterKey + ws.length + 1 + ws'.length) text node mid)
      (hs : Spelled (.fields false) mid more fields stop) :
      Spelled (.fields first) start
        (separator ++ '"' :: (keyText ++ (ws ++ ':' :: (ws' ++ (text ++ more)))))
        (⟨key, afterKey + ws.length, none, node, settleField ⟨mid, more⟩⟩ :: fields) stop

section Spelled

variable {start stop : Nat} {text : List Char} {node : Node}

/-- A value begins with a character that neither is a blank nor separates or ends anything. -/
theorem Spelled.head (h : Spelled .value start text node stop) : ∃ c cs, text = c :: cs ∧
    Cursor.isBlank c = false ∧ c ≠ ',' ∧ c ≠ ']' ∧ c ≠ '}' := by
  cases h with
  | null | trueWord | falseWord | string _ | array _ | object _ => exact ⟨_, _, rfl, by decide⟩
  | number h =>
    obtain ⟨d, ds, rfl, hd⟩ := h.head
    have hne : ∀ c : Char, c ≠ '-' → c.isDigit = false → d ≠ c := by
      rintro c hminus hdigit rfl
      rcases hd with rfl | hd
      · exact hminus rfl
      · rw [hdigit] at hd
        cases hd
    have hblank : Cursor.isBlank d = false := by
      simp [Cursor.isBlank, hne]
    exact ⟨d, ds, rfl, hblank, hne _ (by decide) rfl, hne _ (by decide) rfl, hne _ (by decide) rfl⟩

theorem Spelled.finish_eq_ok (h : Spelled .value start text node stop) :
    node.finish = .ok stop := by
  cases h <;> rfl

/-- What follows does not go on with a value; only numbers can be gone on with. -/
def Node.Apart (node : Node) (rest : List Char) : Prop :=
  (∃ n stop, node = .number n stop) → Numeral.Ends rest

/-- Blanks and what separates or ends items and members do not go on with a number. -/
theorem ends_of_delimiter {ws cs : List Char} {c : Char} (hws : Blanks ws)
    (hc : c = ',' ∨ c = ']' ∨ c = '}') : Numeral.Ends (ws ++ c :: cs) := by
  intro d hd
  cases ws with
  | nil =>
    cases hd
    rcases hc with rfl | rfl | rfl <;> decide
  | cons w ws =>
    cases hd
    have hblank : Cursor.isBlank d = true := hws d List.mem_cons_self
    simp only [Cursor.isBlank, Bool.or_eq_true, decide_eq_true_eq] at hblank
    rcases hblank with ((rfl | rfl) | rfl) | rfl <;> decide

theorem ends_of_separator {separator cs : List Char} (h : Separator false separator) :
    Numeral.Ends (separator ++ cs) := by
  cases h with
  | later hws hws' =>
    rw [List.append_assoc]
    exact ends_of_delimiter hws (.inl rfl)

theorem Spelled.ends_items {items : List Item} (h : Spelled (.items false) start text items stop)
    (rest : List Char) : Numeral.Ends (text ++ rest) := by
  cases h with
  | itemsEnd hws =>
    rw [List.append_assoc]
    exact ends_of_delimiter hws (.inr (.inl rfl))
  | item hseparator _ _ =>
    rw [List.append_assoc]
    exact ends_of_separator hseparator

theorem Spelled.ends_fields {fields : List Field}
    (h : Spelled (.fields false) start text fields stop) (rest : List Char) :
    Numeral.Ends (text ++ rest) := by
  cases h with
  | fieldsEnd hws =>
    rw [List.append_assoc]
    exact ends_of_delimiter hws (.inr (.inr rfl))
  | field hseparator _ _ _ _ _ =>
    rw [List.append_assoc]
    exact ends_of_separator hseparator

end Spelled

/-! ## Reading what the grammar says -/

section Steps

variable {start stop mid : Nat} {cs rest separator text ws ws' : List Char} {c : Char}
  {first : Bool}

theorem nextItem_entry (hseparator : Separator first separator)
    (hblank : Cursor.isBlank c = false) (hc : c ≠ ']') (start : Nat) (cs : List Char) :
    nextItem first ⟨start, separator ++ c :: cs⟩
      = .entry ⟨start + separator.length, c :: cs⟩ := by
  cases hseparator with
  | first hws =>
    rw [nextItem, Cursor.skipBlanks_cons hws hblank]
    simp
  | @later ws ws' hws hws' =>
    rw [List.append_assoc, List.cons_append, nextItem, Cursor.skipBlanks_cons hws (by decide)]
    simp [Cursor.skip, Cursor.skipBlanks_cons hws' hblank, hc]
    omega

theorem nextItem_end (hws : Blanks ws) (first : Bool) (start : Nat) (rest : List Char) :
    nextItem first ⟨start, ws ++ ']' :: rest⟩
      = .ends (.ok (start + ws.length + 1)) ⟨start + ws.length + 1, rest⟩ := by
  rw [nextItem, Cursor.skipBlanks_cons hws (by decide)]
  rfl

theorem nextField_entry (hseparator : Separator first separator) (start : Nat) (cs : List Char) :
    nextField first ⟨start, separator ++ '"' :: cs⟩
      = .entry ⟨start + separator.length, '"' :: cs⟩ := by
  cases hseparator with
  | first hws =>
    rw [nextField, Cursor.skipBlanks_cons hws (by decide)]
    simp
  | @later ws ws' hws hws' =>
    rw [List.append_assoc, List.cons_append, nextField, Cursor.skipBlanks_cons hws (by decide)]
    simp [Cursor.skip, Cursor.skipBlanks_cons hws' (by decide : Cursor.isBlank '"' = false)]
    omega

theorem nextField_end (hws : Blanks ws) (first : Bool) (start : Nat) (rest : List Char) :
    nextField first ⟨start, ws ++ '}' :: rest⟩
      = .ends (.ok (start + ws.length + 1)) ⟨start + ws.length + 1, rest⟩ := by
  rw [nextField, Cursor.skipBlanks_cons hws (by decide)]
  rfl

/-- Where a reader comes to stand behind an item does not depend on what follows the list. -/
theorem settleItem_append {items : List Item} (h : Spelled (.items false) mid text items stop)
    (rest : List Char) : settleItem ⟨mid, text ++ rest⟩ = settleItem ⟨mid, text⟩ := by
  cases h with
  | @itemsEnd _ _ ws hws =>
    have hend : ∀ cs, settleItem ⟨mid, ws ++ ']' :: cs⟩ = mid + ws.length + 1 := by
      intro cs
      rw [settleItem, Cursor.skipBlanks_cons hws (by decide)]
      rfl
    rw [List.append_assoc]
    exact (hend rest).trans (hend []).symm
  | item hseparator h _ =>
    obtain ⟨d, ds, rfl, hd, -⟩ := h.head
    cases hseparator with
    | @later ws ws' hws hws' =>
      have hcomma : ∀ cs, settleItem ⟨mid, ws ++ ',' :: (ws' ++ d :: cs)⟩
          = mid + ws.length + 1 + ws'.length := by
        intro cs
        rw [settleItem, Cursor.skipBlanks_cons hws (by decide)]
        simp only [Cursor.skip, List.drop_succ_cons, List.drop_zero,
          Cursor.skipBlanks_cons hws' hd]
      simp only [List.append_assoc, List.cons_append, hcomma]

/-- Where a reader comes to stand behind a member does not depend on what follows the object. -/
theorem settleField_append {fields : List Field}
    (h : Spelled (.fields false) mid text fields stop) (rest : List Char) :
    settleField ⟨mid, text ++ rest⟩ = settleField ⟨mid, text⟩ := by
  have hany : ∀ {ws : List Char} {c : Char}, Blanks ws → Cursor.isBlank c = false → ∀ cs ds,
      settleField ⟨mid, ws ++ c :: cs⟩ = settleField ⟨mid, ws ++ c :: ds⟩ := by
    intro ws c hws hc cs ds
    rw [settleField, settleField, Cursor.skipBlanks_cons hws hc, Cursor.skipBlanks_cons hws hc]
    by_cases hbrace : c = '}'
    · subst hbrace
      rfl
    · simp [hbrace]
  cases h with
  | fieldsEnd hws =>
    rw [List.append_assoc]
    exact hany hws (by decide) _ _
  | field hseparator _ _ _ _ _ =>
    cases hseparator with
    | later hws hws' =>
      simp only [List.append_assoc, List.cons_append]
      exact hany hws (by decide) _ _

/-- Reads the letters of a word. -/
theorem readWord_append (node : Nat → Node) (word : List Char) (start : Nat) (rest : List Char) :
    readWord node word ⟨start, word ++ rest⟩
      = (node (start + word.length), ⟨start + word.length, rest⟩) := by
  induction word generalizing start with
  | nil => rfl
  | cons w word ih =>
    simp only [List.cons_append, readWord, Cursor.skip, List.drop_succ_cons, List.drop_zero,
      if_true]
    rw [ih, List.length_cons, Nat.add_assoc, Nat.add_comm 1]

/-- Reads a number. -/
theorem read_numeral {n : Numeral} {bound : Nat} {cursor : Cursor} (h : n.IsText text)
    (hrest : Numeral.Ends rest) (hcursor : cursor.skipBlanks = ⟨start, text ++ rest⟩) :
    read (bound + 1) cursor = (.number (n.value (start + text.length)) (start + text.length),
      ⟨start + text.length, rest⟩) := by
  have hread := Numeral.read_of_isText h hrest start
  obtain ⟨d, ds, rfl, hd⟩ := h.head
  have hne : ∀ c : Char, c ≠ '-' → c.isDigit = false → d ≠ c := by
    rintro c hminus hdigit rfl
    rcases hd with rfl | hd
    · exact hminus rfl
    · rw [hdigit] at hd
      cases hd
  rw [Node.read, hcursor]
  rw [List.cons_append] at hread ⊢
  split
  · rename_i heq
    cases heq
  iterate 6
    rename_i heq
    exact absurd (List.cons.inj heq).1 (hne _ (by decide) rfl)
  · rename_i heq
    cases heq
    rw [if_pos hd, hread]

/-- The reader makes the tree of a part out of its text, whatever follows. -/
def Part.IsRead : (p : Part) → (start : Nat) → List Char → p.Value → (stop : Nat) → Prop
  | .value, start, text, node, stop => ∀ rest bound c, node.Apart rest → text.length ≤ bound →
      c.skipBlanks = ⟨start, text ++ rest⟩ → Node.read bound c = (node, ⟨stop, rest⟩)
  | .items first, start, text, xs, stop => ∀ rest bound n, text.length ≤ bound →
      text.length ≤ n → readItems (Node.read n) bound first ⟨start, text ++ rest⟩
        = (xs, .ok stop, ⟨stop, rest⟩)
  | .fields first, start, text, ms, stop => ∀ rest bound n, text.length ≤ bound →
      text.length ≤ n → readFields (Node.read n) bound first ⟨start, text ++ rest⟩
        = (ms, .ok stop, ⟨stop, rest⟩)

theorem exists_bound {n bound : Nat} (h : n + 1 ≤ bound) : ∃ k, bound = k + 1 ∧ n ≤ k :=
  ⟨bound - 1, by omega, by omega⟩

/-- What the grammar says is read, and no more of the text. -/
theorem Spelled.read {p : Part} {tree : p.Value} (h : Spelled p start text tree stop) :
    p.IsRead start text tree stop := by
  induction h with
  | null =>
    intro rest bound c _ hbound hc
    obtain ⟨k, rfl, -⟩ := exists_bound hbound
    rw [Node.read, hc]
    exact readWord_append .null ['u', 'l', 'l'] _ _
  | trueWord =>
    intro rest bound c _ hbound hc
    obtain ⟨k, rfl, -⟩ := exists_bound hbound
    rw [Node.read, hc]
    exact readWord_append (.bool true) ['r', 'u', 'e'] _ _
  | falseWord =>
    intro rest bound c _ hbound hc
    obtain ⟨k, rfl, -⟩ := exists_bound hbound
    rw [Node.read, hc]
    exact readWord_append (.bool false) ['a', 'l', 's', 'e'] _ _
  | number h =>
    intro rest bound c hrest hbound hc
    obtain ⟨d, ds, htext, -⟩ := h.head
    rw [htext] at hbound
    obtain ⟨k, rfl, -⟩ := exists_bound hbound
    exact read_numeral h (hrest ⟨_, _, rfl⟩) hc
  | string h =>
    intro rest bound c _ hbound hc
    obtain ⟨k, rfl, -⟩ := exists_bound hbound
    have hstring := h rest
    rw [Node.read, hc]
    simp only [List.cons_append, Cursor.skip, List.drop_succ_cons, List.drop_zero, hstring]
    rfl
  | array _ ih =>
    intro rest bound c _ hbound hc
    obtain ⟨k, rfl, hk⟩ := exists_bound hbound
    have hitems := ih rest k k hk hk
    rw [Node.read, hc]
    simp only [List.cons_append, Cursor.skip, List.drop_succ_cons, List.drop_zero, hitems]
    rfl
  | object _ ih =>
    intro rest bound c _ hbound hc
    obtain ⟨k, rfl, hk⟩ := exists_bound hbound
    have hfields := ih rest k k hk hk
    rw [Node.read, hc]
    simp only [List.cons_append, Cursor.skip, List.drop_succ_cons, List.drop_zero, hfields]
    rfl
  | @itemsEnd first start ws hws =>
    intro rest bound n hbound _
    rw [List.length_append] at hbound
    obtain ⟨k, rfl, -⟩ := exists_bound (Nat.le_of_add_left_le hbound)
    rw [List.append_assoc, readItems, List.singleton_append, nextItem_end hws]
    rfl
  | @item first start mid stop separator text more node items hseparator h hs ih ihs =>
    intro rest bound n hbound hn
    have hfinish := h.finish_eq_ok
    obtain ⟨d, ds, rfl, hblank, -, hlist, -⟩ := h.head
    simp only [List.length_append, List.length_cons] at hbound hn
    obtain ⟨k, rfl, hk⟩ := exists_bound (n := more.length) (Nat.le_trans (by omega) hbound)
    have hnext := nextItem_entry hseparator hblank hlist start (ds ++ (more ++ rest))
    have hvalue : Node.read n ⟨start + separator.length, d :: (ds ++ (more ++ rest))⟩
        = (node, ⟨mid, more ++ rest⟩) :=
      ih (more ++ rest) n _ (fun _ => hs.ends_items rest) (by simp; omega)
        (Cursor.skipBlanks_of_head hblank _ _)
    have hmore := ihs rest k n hk (by omega)
    have hsettle := settleItem_append hs rest
    simp only [List.append_assoc, List.cons_append, readItems, hnext, hvalue, hfinish, hmore,
      hsettle]
    rfl
  | fieldsEnd hws =>
    intro rest bound n hbound _
    rw [List.length_append] at hbound
    obtain ⟨k, rfl, -⟩ := exists_bound (Nat.le_of_add_left_le hbound)
    rw [List.append_assoc, readFields, List.singleton_append, nextField_end hws]
    rfl
  | @field first start afterKey mid stop separator keyText ws ws' text more key node fields
      hseparator hkey hws hws' h hs ih ihs =>
    intro rest bound n hbound hn
    have hfinish := h.finish_eq_ok
    obtain ⟨d, ds, rfl, hblank, -⟩ := h.head
    simp only [List.length_append, List.length_cons] at hbound hn
    obtain ⟨k, rfl, hk⟩ := exists_bound (n := more.length) (Nat.le_trans (by omega) hbound)
    have hnext := nextField_entry hseparator start
      (keyText ++ (ws ++ ':' :: (ws' ++ d :: (ds ++ (more ++ rest)))))
    have hstring := hkey (ws ++ ':' :: (ws' ++ d :: (ds ++ (more ++ rest))))
    have hcolon : Cursor.skipBlanks ⟨afterKey, ws ++ ':' :: (ws' ++ d :: (ds ++ (more ++ rest)))⟩
        = ⟨afterKey + ws.length, ':' :: (ws' ++ d :: (ds ++ (more ++ rest)))⟩ :=
      Cursor.skipBlanks_cons hws (by decide) _ _
    have hvalue := ih (more ++ rest) n _ (fun _ => hs.ends_fields rest) (by simp; omega)
      (Cursor.skipBlanks_cons hws' hblank (afterKey + ws.length + 1) (ds ++ (more ++ rest)))
    have hmore := ihs rest k n hk (by omega)
    have hsettle := settleField_append hs rest
    have hafter : readAfterKey (Node.read n) key
        ⟨afterKey, ws ++ ':' :: (ws' ++ d :: (ds ++ (more ++ rest)))⟩
        = (⟨key, afterKey + ws.length, none, node, settleField ⟨mid, more⟩⟩,
            ⟨mid, more ++ rest⟩) := by
      have hkeyEnd : settleField ⟨afterKey, ws ++ ':' :: (ws' ++ d :: (ds ++ (more ++ rest)))⟩
          = afterKey + ws.length := by
        rw [settleField, hcolon]
        rfl
      rw [readAfterKey, hkeyEnd, hcolon]
      simp only [Cursor.skip, List.drop_succ_cons, List.drop_zero, hvalue, hsettle]
    simp only [List.append_assoc, List.cons_append, readFields, hnext, Cursor.skip,
      List.drop_succ_cons, List.drop_zero, hstring, hafter, hfinish, hmore]
    rfl

/-- A value with blanks in front of it is read from a text, and no more of the text. -/
theorem ofText_of_spelled {node : Node} (hws : Blanks ws)
    (h : Spelled .value ws.length text node stop) (hrest : node.Apart rest) :
    ofText (ws ++ (text ++ rest)) = (node, ⟨stop, rest⟩) := by
  obtain ⟨c, cs, rfl, hblank, -⟩ := h.head
  have hskip := Cursor.skipBlanks_cons hws hblank 0 (cs ++ rest)
  rw [Nat.zero_add] at hskip
  refine h.read rest _ _ hrest ?_ hskip
  simp only [List.length_append]
  omega

end Steps

/-! ## What is read is in the grammar -/

section Sound

variable {first : Bool} {c c' after : Cursor} {stop : Nat} {value : Cursor → Node × Cursor}

/-- Blanks around a comma are a separator. -/
theorem exists_separator {ws ds : List Char} (hws : Blanks ws) (hrest : c.rest = ws ++ ',' :: ds) :
    ∃ separator cs, Separator false separator ∧ c.rest = separator ++ cs ∧
      (Cursor.skip ⟨c.offset + ws.length, ',' :: ds⟩ 1).skipBlanks
        = ⟨c.offset + separator.length, cs⟩ ∧
      ∀ d, cs.head? = some d → Cursor.isBlank d = false := by
  obtain ⟨ws', cs, hws', hbehind, hskip, hhead⟩ :=
    Cursor.exists_skipBlanks (Cursor.skip ⟨c.offset + ws.length, ',' :: ds⟩ 1)
  have hds : ds = ws' ++ cs := hbehind
  refine ⟨ws ++ ',' :: ws', cs, .later hws hws', ?_, ?_, hhead⟩
  · rw [hrest, hds, List.append_assoc, List.cons_append]
  · rw [hskip]
    simp only [Cursor.skip, List.length_append, List.length_cons, Cursor.mk.injEq, and_true]
    omega

/-- In front of an item stands a separator. -/
theorem separator_of_nextItem (h : nextItem first c = .entry c') : ∃ separator,
    Separator first separator ∧ c.rest = separator ++ c'.rest ∧
      c'.offset = c.offset + separator.length ∧
      ∀ d, c'.rest.head? = some d → Cursor.isBlank d = false := by
  obtain ⟨ws, cs, hws, hrest, hskip, hhead⟩ := Cursor.exists_skipBlanks c
  rw [nextItem, hskip] at h
  dsimp only at h
  split at h
  · cases h
  · cases h
  · rename_i d ds _
    split at h
    · rename_i hfirst
      cases h
      rw [hfirst]
      exact ⟨ws, .first hws, hrest, rfl, hhead⟩
    · rename_i hfirst
      split at h
      · rename_i hcomma
        subst hcomma
        obtain ⟨separator, cs, hseparator, hsplit, hskip, hbehind⟩ := exists_separator hws hrest
        rw [hskip] at h
        split at h
        · cases h
        · cases h
        · cases h
          rw [Bool.eq_false_iff.mpr hfirst]
          exact ⟨separator, hseparator, hsplit, rfl, hbehind⟩
      · cases h

/-- A list ends behind blanks. -/
theorem blanks_of_nextItem (h : nextItem first c = .ends (.ok stop) c') : ∃ ws, Blanks ws ∧
    c.rest = ws ++ ']' :: c'.rest ∧ c'.offset = stop ∧ stop = c.offset + ws.length + 1 := by
  obtain ⟨ws, cs, hws, hrest, hskip, hhead⟩ := Cursor.exists_skipBlanks c
  rw [nextItem, hskip] at h
  dsimp only at h
  split at h
  · cases h
  · cases h
    exact ⟨ws, hws, hrest, rfl, rfl⟩
  · split at h
    · cases h
    · split at h
      · split at h <;> cases h
      · cases h

/-- In front of a member stands a separator; the member begins with a quotation mark. -/
theorem separator_of_nextField (h : nextField first c = .entry c') : ∃ separator cs,
    Separator first separator ∧ c.rest = separator ++ '"' :: cs ∧
      c' = ⟨c.offset + separator.length, '"' :: cs⟩ := by
  obtain ⟨ws, cs, hws, hrest, hskip, -⟩ := Cursor.exists_skipBlanks c
  rw [nextField, hskip] at h
  dsimp only at h
  split at h
  · cases h
  · cases h
  · rename_i d ds _
    split at h
    · rename_i hfirst
      split at h
      · rename_i hquote
        cases h
        subst hquote
        rw [hfirst]
        exact ⟨ws, ds, .first hws, hrest, rfl⟩
      · cases h
    · rename_i hfirst
      split at h
      · rename_i hcomma
        subst hcomma
        obtain ⟨separator, cs, hseparator, hsplit, hskip, -⟩ := exists_separator hws hrest
        rw [hskip] at h
        split at h
        · cases h
        · rename_i es hquote
          cases h
          obtain rfl : cs = '"' :: es := hquote
          rw [Bool.eq_false_iff.mpr hfirst]
          exact ⟨separator, es, hseparator, hsplit, rfl⟩
        · cases h
        · cases h
      · cases h

/-- An object ends behind blanks. -/
theorem blanks_of_nextField (h : nextField first c = .ends (.ok stop) c') : ∃ ws, Blanks ws ∧
    c.rest = ws ++ '}' :: c'.rest ∧ c'.offset = stop ∧ stop = c.offset + ws.length + 1 := by
  obtain ⟨ws, cs, hws, hrest, hskip, hhead⟩ := Cursor.exists_skipBlanks c
  rw [nextField, hskip] at h
  dsimp only at h
  split at h
  · cases h
  · cases h
    exact ⟨ws, hws, hrest, rfl, rfl⟩
  · split at h
    · split at h <;> cases h
    · split at h
      · split at h <;> cases h
      · cases h

/-- A word without a breakdown is read to its end. -/
theorem rest_of_readWord {node : Nat → Node} {word : List Char} {tree : Node}
    (h : readWord node word c = (tree, after)) (hfinish : tree.finish = .ok stop) :
    c.rest = word ++ after.rest ∧ after.offset = c.offset + word.length ∧
      tree = node after.offset := by
  induction word generalizing c with
  | nil =>
    cases h
    exact ⟨rfl, rfl, rfl⟩
  | cons w word ih =>
    rw [readWord] at h
    split at h
    · cases h
      cases hfinish
    · rename_i d ds hrest
      split at h
      · rename_i hd
        obtain ⟨hword, hoffset, htree⟩ := ih h
        have hds : ds = word ++ after.rest := by
          rw [← hword, Cursor.skip, hrest]
          rfl
        refine ⟨by rw [hrest, hds, hd]; rfl, ?_, htree⟩
        rw [hoffset, List.length_cons]
        simp only [Cursor.skip]
        omega
      · cases h
        cases hfinish

/-- A word whose first letter stands in front is a value. -/
theorem spelled_of_readWord {tree : Nat → Node} {d : Char} {word cs : List Char} {node : Node}
    (h : readWord tree word (c.skip 1) = (node, after)) (hc : c.rest = d :: cs)
    (hfinish : node.finish = .ok stop)
    (hspelled : ∀ start, Spelled .value start (d :: word) (tree (start + word.length + 1))
      (start + word.length + 1)) :
    ∃ text, c.rest = text ++ after.rest ∧ after.offset = stop ∧
      Spelled .value c.offset text node stop := by
  obtain ⟨hrest, hoffset, rfl⟩ := rest_of_readWord h hfinish
  have hend : after.offset = c.offset + word.length + 1 := by
    rw [hoffset, Cursor.skip, Nat.add_right_comm]
  have hvalue := hspelled c.offset
  rw [← hend] at hvalue
  have hstop : after.offset = stop := by
    rw [hvalue.finish_eq_ok] at hfinish
    cases hfinish
    rfl
  have hcs : cs = word ++ after.rest := by
    rw [← hrest, Cursor.skip, hc]
    rfl
  exact ⟨d :: word, by rw [hc, hcs, List.cons_append], hstop, hstop ▸ hvalue⟩

/-- A reader whose trees without breakdown are those of values behind blanks. -/
def IsSound (value : Cursor → Node × Cursor) : Prop :=
  ∀ c node after stop, value c = (node, after) → node.finish = .ok stop → ∃ ws text, Blanks ws ∧
    c.rest = ws ++ (text ++ after.rest) ∧ after.offset = stop ∧
      Spelled .value (c.offset + ws.length) text node stop

/-- The items that are read up to the end of a list are such a part. -/
theorem spelled_of_readItems (hvalue : IsSound value) {bound : Nat} {items : List Item}
    (h : readItems value bound first c = (items, .ok stop, after)) : ∃ text,
    c.rest = text ++ after.rest ∧ after.offset = stop ∧
      Spelled (.items first) c.offset text items stop := by
  induction bound generalizing first c items with
  | zero => cases h
  | succ bound ih =>
    rw [readItems] at h
    split at h
    · rename_i finish c' hnext
      cases h
      obtain ⟨ws, hws, hrest, hoffset, rfl⟩ := blanks_of_nextItem hnext
      refine ⟨ws ++ [']'], ?_, hoffset, .itemsEnd hws⟩
      rw [hrest, List.append_assoc, List.singleton_append]
    · rename_i c' hnext
      obtain ⟨separator, hseparator, hrest, hoffset, hhead⟩ := separator_of_nextItem hnext
      obtain ⟨node, mid, hnode⟩ : ∃ node mid, value c' = (node, mid) := ⟨_, _, rfl⟩
      rw [hnode] at h
      dsimp only at h
      split at h
      · cases h
      · rename_i stop' hfinish
        obtain ⟨ws, text, hws, hrest', hmid, hspelled⟩ := hvalue c' node mid stop' hnode hfinish
        -- There are no blanks in front of the item, since they have been skipped.
        have hnone : ws = [] := by
          cases ws with
          | nil => rfl
          | cons w ws =>
            have hblank := hws w List.mem_cons_self
            rw [hhead w (by rw [hrest']; rfl)] at hblank
            cases hblank
        subst hnone
        generalize hmore : readItems value bound false mid = more at h
        obtain ⟨items', finish, last⟩ := more
        cases h
        obtain ⟨text', hrest'', hlast, hspelled'⟩ := ih hmore
        have hsettle : settleItem mid = settleItem ⟨mid.offset, text'⟩ := by
          rw [← settleItem_append hspelled' last.rest, ← hrest'']
        rw [hmid] at hspelled' hsettle
        rw [hsettle, hoffset]
        rw [List.length_nil, Nat.add_zero, hoffset] at hspelled
        refine ⟨separator ++ (text ++ text'), ?_, hlast, .item hseparator hspelled hspelled'⟩
        rw [hrest, hrest', hrest'']
        simp only [List.append_assoc, List.nil_append]

/-- Behind a key stand a colon and the value. -/
theorem colon_of_readAfterKey {key : Except Fault String} {field : Field}
    (h : readAfterKey value key c = (field, after)) (hfinish : field.node.finish = .ok stop) :
    ∃ ws cs, Blanks ws ∧ c.rest = ws ++ ':' :: cs ∧
      value ⟨c.offset + ws.length + 1, cs⟩ = (field.node, after) ∧
      field = ⟨key, c.offset + ws.length, none, field.node, settleField after⟩ := by
  obtain ⟨ws, cs, hws, hrest, hskip, -⟩ := Cursor.exists_skipBlanks c
  rw [readAfterKey, hskip] at h
  dsimp only at h
  split at h
  · cases h
    have hkeyEnd : settleField c = c.offset + ws.length := by
      rw [settleField, hskip]
      rfl
    rw [hkeyEnd]
    exact ⟨ws, _, hws, hrest, rfl, rfl⟩
  · cases h
    cases hfinish
  · cases h
    cases hfinish

/-- The members that are read up to the end of an object are such a part. -/
theorem spelled_of_readFields (hvalue : IsSound value) {bound : Nat} {fields : List Field}
    (h : readFields value bound first c = (fields, .ok stop, after)) : ∃ text,
    c.rest = text ++ after.rest ∧ after.offset = stop ∧
      Spelled (.fields first) c.offset text fields stop := by
  induction bound generalizing first c fields with
  | zero => cases h
  | succ bound ih =>
    rw [readFields] at h
    split at h
    · rename_i finish c' hnext
      cases h
      obtain ⟨ws, hws, hrest, hoffset, rfl⟩ := blanks_of_nextField hnext
      refine ⟨ws ++ ['}'], ?_, hoffset, .fieldsEnd hws⟩
      rw [hrest, List.append_assoc, List.singleton_append]
    · rename_i c' hnext
      obtain ⟨separator, cs, hseparator, hrest, rfl⟩ := separator_of_nextField hnext
      split at h
      · cases h
      · rename_i key afterKey hkey
        obtain ⟨keyText, hkeyRest, hkeyText⟩ := isString_of_readString hkey
        generalize hfield : readAfterKey value key afterKey = read at h
        obtain ⟨field, mid⟩ := read
        dsimp only at h
        split at h
        · cases h
        · rename_i stop' hfinish
          obtain ⟨ws, cs', hws, hcolon, hnode, heq⟩ := colon_of_readAfterKey hfield hfinish
          obtain ⟨ws', text, hws', hrest', hmid, hspelled⟩ := hvalue _ _ _ _ hnode hfinish
          generalize hmore : readFields value bound false mid = more at h
          obtain ⟨fields', finish, last⟩ := more
          cases h
          obtain ⟨text', hrest'', hlast, hspelled'⟩ := ih hmore
          have hsettle : settleField mid = settleField ⟨mid.offset, text'⟩ := by
            rw [← settleField_append hspelled' last.rest, ← hrest'']
          rw [hmid] at hspelled' hsettle
          rw [heq, hsettle]
          have hcs : cs = keyText ++ afterKey.rest := hkeyRest
          refine ⟨_, ?_, hlast, .field hseparator hkeyText hws hws' hspelled hspelled'⟩
          have hcs' : cs' = ws' ++ (text ++ (text' ++ last.rest)) := by
            rw [← hrest'']
            exact hrest'
          rw [hrest, hcs, hcolon, hcs']
          simp only [List.append_assoc, List.cons_append]

/-- The reader is sound. -/
theorem isSound_read (bound : Nat) : IsSound (Node.read bound) := by
  induction bound with
  | zero =>
    intro c node after stop h hfinish
    cases h
    cases hfinish
  | succ bound ih =>
    intro c node after stop h hfinish
    obtain ⟨ws, cs, hws, hrest, hskip, -⟩ := Cursor.exists_skipBlanks c
    rw [Node.read, hskip] at h
    dsimp only at h
    split at h
    · cases h
      cases hfinish
    · obtain ⟨text, htext, hstop, hspelled⟩ := spelled_of_readWord h rfl hfinish fun _ => .null
      exact ⟨ws, text, hws, hrest.trans (congrArg (ws ++ ·) htext), hstop, hspelled⟩
    · obtain ⟨text, htext, hstop, hspelled⟩ := spelled_of_readWord h rfl hfinish fun _ => .trueWord
      exact ⟨ws, text, hws, hrest.trans (congrArg (ws ++ ·) htext), hstop, hspelled⟩
    · obtain ⟨text, htext, hstop, hspelled⟩ := spelled_of_readWord h rfl hfinish fun _ => .falseWord
      exact ⟨ws, text, hws, hrest.trans (congrArg (ws ++ ·) htext), hstop, hspelled⟩
    · rename_i ds
      split at h
      · rename_i text after' hstring
        cases h
        cases hfinish
        obtain ⟨used, hused, hspelled⟩ := isString_of_readString hstring
        have hds : ds = used ++ after.rest := hused
        refine ⟨ws, '"' :: used, hws, ?_, rfl, .string hspelled⟩
        rw [hrest, hds, List.cons_append]
      · cases h
        cases hfinish
    · rename_i ds
      generalize hread : readItems (Node.read bound) bound true
        (Cursor.skip ⟨c.offset + ws.length, '[' :: ds⟩ 1) = read at h
      obtain ⟨items, finish, last⟩ := read
      cases h
      cases hfinish
      obtain ⟨text, htext, hstop, hspelled⟩ := spelled_of_readItems ih hread
      have hds : ds = text ++ last.rest := htext
      refine ⟨ws, '[' :: text, hws, ?_, hstop, .array hspelled⟩
      rw [hrest, hds, List.cons_append]
    · rename_i ds
      generalize hread : readFields (Node.read bound) bound true
        (Cursor.skip ⟨c.offset + ws.length, '{' :: ds⟩ 1) = read at h
      obtain ⟨fields, finish, last⟩ := read
      cases h
      cases hfinish
      obtain ⟨text, htext, hstop, hspelled⟩ := spelled_of_readFields ih hread
      have hds : ds = text ++ last.rest := htext
      refine ⟨ws, '{' :: text, hws, ?_, hstop, .object hspelled⟩
      rw [hrest, hds, List.cons_append]
    · split at h
      · split at h
        · rename_i numeral after' hread
          cases h
          cases hfinish
          obtain ⟨text, htext, hsplit, hoffset⟩ := Numeral.isText_of_read hread
          refine ⟨ws, text, hws, ?_, rfl, ?_⟩
          · rw [hrest]
            exact congrArg (ws ++ ·) hsplit
          · rw [hoffset]
            exact .number htext
        · cases h
          cases hfinish
      · cases h
        cases hfinish

end Sound

end Json
end AliasCheck
