import AliasCheck.Proofs.MovedTexts

/-!
# Exchanging a value inside of a JSON text

Any value inside of a JSON text can be exchanged for another one, and the text is JSON still. In its
tree what stands in front of the value stays as it is. What stands behind it moves, so nothing more
is said of it. `Slot` keeps together the value, the text around it and what becomes of the text.
-/

namespace AliasCheck
namespace Json

open Node

/-! ## Slots -/

/-- A value stands in a text that begins at `start`. The text with any other value in its place is
one that, together with the tree of that value, satisfies `Fits`. -/
def Slot (start : Nat) (text : List Char) (node : Node) (Fits : List Char → Node → Prop) : Prop :=
  ∃ front old back, text = front ++ (old ++ back) ∧
    Spelled .value (start + byteLength front) old node (start + byteLength (front ++ old)) ∧
    ∀ new tree stop, Spelled .value (start + byteLength front) new tree stop →
      Fits (front ++ (new ++ back)) tree

namespace Slot

variable {start stop : Nat} {text : List Char} {node : Node} {Fits Fits' : List Char → Node → Prop}

/-- A value fills the whole of its own text. -/
theorem self (h : Spelled .value start text node stop) :
    Slot start text node fun text' tree => ∃ stop', Spelled .value start text' tree stop' := by
  obtain ⟨rfl, -⟩ := h.move
  refine ⟨[], text, [], by simp, h, fun new tree stop' h' => ⟨stop', ?_⟩⟩
  rw [List.nil_append, List.append_nil]
  exact h'

theorem imp (h : Slot start text node Fits)
    (himp : ∀ text' tree, Fits text' tree → Fits' text' tree) : Slot start text node Fits' := by
  obtain ⟨front, old, back, htext, hold, hfits⟩ := h
  exact ⟨front, old, back, htext, hold, fun new tree stop h => himp _ _ (hfits new tree stop h)⟩

/-- More text may stand around. -/
theorem around (before behind : List Char) (h : Slot (start + byteLength before) text node Fits) :
    Slot start (before ++ (text ++ behind)) node
      fun text' tree => ∃ inner, text' = before ++ (inner ++ behind) ∧ Fits inner tree := by
  obtain ⟨front, old, back, rfl, hold, hfits⟩ := h
  have hwidth : ∀ cs,
      start + byteLength before + byteLength cs = start + byteLength (before ++ cs) := by
    intro cs
    rw [byteLength_append, Nat.add_assoc]
  rw [hwidth, hwidth, ← List.append_assoc] at hold
  refine ⟨before ++ front, old, back ++ behind, by simp, hold, fun new tree stop h => ?_⟩
  rw [← hwidth] at h
  exact ⟨front ++ (new ++ back), by simp, hfits new tree stop h⟩

/-- There need not be more text behind. -/
theorem behind (before : List Char) (h : Slot (start + byteLength before) text node Fits) :
    Slot start (before ++ text) node
      fun text' tree => ∃ inner, text' = before ++ inner ∧ Fits inner tree := by
  simpa only [List.append_nil] using h.around before []

/-- A value may stand in one that stands in the text. -/
theorem inside {inner : Node} {R : Node → Node → Prop} (h : Slot start text node Fits)
    (hinner : ∀ {start text stop}, Spelled .value start text node stop → Slot start text inner
      fun text' tree => ∃ node' stop', Spelled .value start text' node' stop' ∧ R node' tree) :
    Slot start text inner fun text' tree => ∃ node', Fits text' node' ∧ R node' tree := by
  obtain ⟨front, old, back, rfl, hold, hfits⟩ := h
  refine ((hinner hold).around front back).imp ?_
  rintro _ tree ⟨value, rfl, node', stop', hspelled, hR⟩
  exact ⟨node', hfits value node' stop' hspelled, hR⟩

end Slot

section Containers

variable {first : Bool} {start mid stop : Nat} {text separator : List Char}

/-- Behind an item the reader settles where the next one begins. -/
theorem settleItem_eq_start {item : Item} {items : List Item}
    (h : Spelled (.items false) mid text (item :: items) stop) :
    settleItem ⟨mid, text⟩ = item.start := by
  cases h with
  | item hseparator h _ =>
    obtain ⟨d, ds, rfl, hd, -⟩ := h.head
    cases hseparator with
    | @later ws ws' hws hws' =>
      simp only [List.append_assoc, List.cons_append]
      rw [settleItem, Cursor.skipBlanks_cons hws (by decide)]
      simp only [Cursor.skip, List.drop_succ_cons, List.drop_zero, Cursor.skipBlanks_cons hws' hd,
        List.length_append, List.length_cons]
      omega

/-- In front of a key it settles in the separator. -/
theorem settleField_separator (h : Separator first separator) (mid : Nat) (cs ds : List Char) :
    settleField ⟨mid, separator ++ '"' :: cs⟩ = settleField ⟨mid, separator ++ '"' :: ds⟩ := by
  have hquote : Cursor.isBlank '"' = false := by decide
  have hcomma : Cursor.isBlank ',' = false := by decide
  cases h with
  | first hws =>
    rw [settleField, settleField, Cursor.skipBlanks_cons hws hquote,
      Cursor.skipBlanks_cons hws hquote]
    rfl
  | later hws _ =>
    simp only [List.append_assoc, List.cons_append]
    rw [settleField, settleField, Cursor.skipBlanks_cons hws hcomma,
      Cursor.skipBlanks_cons hws hcomma]
    rfl

/-- Any item of a list can be exchanged; the items in front of it stay what they are. -/
theorem Spelled.slot_item {pre post : List Item} {item : Item}
    (h : Spelled (.items first) start text (pre ++ item :: post) stop) :
    Slot start text item.node fun text' node' => ∃ after' post' stop',
      Spelled (.items first) start text' (pre ++ ⟨item.start, node', after'⟩ :: post') stop' := by
  induction pre generalizing first start text with
  | nil =>
    cases h with
    | @item _ _ mid _ separator value more node items hseparator h hs =>
      rw [← hseparator.byteLength_eq] at h ⊢
      refine ((Slot.self h).around separator more).imp ?_
      rintro _ node' ⟨value', rfl, mid', h'⟩
      obtain ⟨items', hitems', -⟩ := hs.move.2 mid'
      rw [hseparator.byteLength_eq] at h' ⊢
      exact ⟨_, _, _, .item hseparator h' hitems'⟩
  | cons p pre ih =>
    cases h with
    | @item _ _ mid _ separator value more node items hseparator h hs =>
      have hmid : mid = start + byteLength (separator ++ value) := by
        rw [h.move.1, byteLength_append, hseparator.byteLength_eq, Nat.add_assoc]
      have hslot := ih hs
      rw [hmid] at hslot
      rw [← List.append_assoc]
      refine (hslot.behind _).imp ?_
      rintro _ node' ⟨more', rfl, after', post', stop', hs'⟩
      rw [← hmid] at hs'
      -- The reader settles in front of the next item, which begins where it did before.
      have hsettle : settleItem ⟨mid, more⟩ = settleItem ⟨mid, more'⟩ := by
        cases pre with
        | nil => rw [settleItem_eq_start hs, settleItem_eq_start hs']
        | cons q pre => exact (settleItem_eq_start hs).trans (settleItem_eq_start hs').symm
      rw [hsettle, List.append_assoc]
      exact ⟨after', post', stop', .item hseparator h hs'⟩

/-- The same for a member of an object. -/
theorem Spelled.slot_field {pre post : List Field} {field : Field}
    (h : Spelled (.fields first) start text (pre ++ field :: post) stop) :
    field.noColon = none ∧ Slot start text field.node fun text' node' =>
      settleField ⟨start, text⟩ = settleField ⟨start, text'⟩ ∧ ∃ after' post' stop',
        Spelled (.fields first) start text'
          (pre ++ ⟨field.key, field.afterKey, none, node', after'⟩ :: post') stop' := by
  induction pre generalizing first start text with
  | nil =>
    cases h with
    | @field _ _ afterKey mid _ separator keyText ws ws' value more key node fields hseparator
        hkey hws hws' h hs =>
      have hwidth := add_byteLength_memberFront hseparator hws hws' keyText start
      rw [← hkey.move.1] at hwidth
      rw [hwidth] at h
      rw [← memberFront_append]
      refine ⟨rfl, ((Slot.self h).around _ more).imp ?_⟩
      rintro _ node' ⟨value', rfl, mid', h'⟩
      rw [← hwidth] at h'
      obtain ⟨fields', hfields', -⟩ := hs.move.2 mid'
      rw [memberFront_append, memberFront_append]
      exact ⟨settleField_separator hseparator _ _ _, _, _, _,
        .field hseparator hkey hws hws' h' hfields'⟩
  | cons p pre ih =>
    cases h with
    | @field _ _ afterKey mid _ separator keyText ws ws' value more key node fields hseparator
        hkey hws hws' h hs =>
      have hmid : mid = start + byteLength (memberFront separator keyText ws ws' ++ value) := by
        rw [h.move.1, hkey.move.1, add_byteLength_memberFront hseparator hws hws',
          byteLength_append, Nat.add_assoc]
      obtain ⟨hnone, hslot⟩ := ih hs
      rw [hmid] at hslot
      have htext : ∀ cs, separator ++ '"' :: (keyText ++ (ws ++ ':' :: (ws' ++ (value ++ cs))))
          = memberFront separator keyText ws ws' ++ value ++ cs := fun cs => by
        rw [List.append_assoc, memberFront_append]
      rw [htext]
      refine ⟨hnone, (hslot.behind _).imp ?_⟩
      rintro _ node' ⟨more', rfl, hsettle, after', post', stop', hs'⟩
      rw [← hmid] at hsettle hs'
      rw [hsettle, ← htext more, ← htext more']
      exact ⟨settleField_separator hseparator _ _ _, after', post', stop',
        .field hseparator hkey hws hws' h hs'⟩

/-- The same for an item of a value that is a list. -/
theorem Spelled.slot_array {pre post : List Item} {item : Item} {finish : Except Breakdown Nat}
    (h : Spelled .value start text (.array mid (pre ++ item :: post) finish) stop) :
    Slot start text item.node fun text' node' => ∃ after' post' stop', Spelled .value start text'
      (.array mid (pre ++ ⟨item.start, node', after'⟩ :: post') (.ok stop')) stop' := by
  cases h with
  | @array _ _ items _ h =>
    refine ((slot_item h).behind ['[']).imp ?_
    rintro _ node' ⟨items', rfl, after', post', stop', h'⟩
    exact ⟨after', post', stop', .array h'⟩

/-- The same for a member of a value that is an object. -/
theorem Spelled.slot_object {pre post : List Field} {field : Field} {finish : Except Breakdown Nat}
    (h : Spelled .value start text (.object mid (pre ++ field :: post) finish) stop) :
    field.noColon = none ∧ Slot start text field.node fun text' node' => ∃ after' post' stop',
      Spelled .value start text' (.object mid
        (pre ++ ⟨field.key, field.afterKey, none, node', after'⟩ :: post') (.ok stop')) stop' := by
  cases h with
  | @object _ _ fields _ h =>
    obtain ⟨hnone, hslot⟩ := slot_field h
    refine ⟨hnone, (hslot.behind ['{']).imp ?_⟩
    rintro _ node' ⟨fields', rfl, -, after', post', stop', h'⟩
    exact ⟨after', post', stop', .object h'⟩

end Containers
end Json

end AliasCheck
