import AliasCheck.Proofs.Nesting
import AliasCheck.Proofs.Results
import AliasCheck.Proofs.Tables

/-!
# JSON documents

When an object has a key twice, its value holds only one of the two members, while its tree has
both. Without such objects the tree of a text denotes the value of the text, as long as no part of
it is broken and it is not too deep.
-/

namespace AliasCheck
namespace Json

mutual

/-- No object has a key twice. -/
def DistinctKeys : Json → Prop
  | null | bool _ | number _ | string _ => True
  | array items => DistinctItems items
  | object members => (Table.names members).Nodup ∧ DistinctMembers members

/-- No object in the items has a key twice. -/
def DistinctItems : List Json → Prop
  | [] => True
  | x :: xs => DistinctKeys x ∧ DistinctItems xs

/-- No object in the members has a key twice. -/
def DistinctMembers : List (String × Json) → Prop
  | [] => True
  | (_, x) :: ms => DistinctKeys x ∧ DistinctMembers ms

end

/-- The text is one value that is not too deep, and none of its objects has a key twice. -/
structure IsDocument (text : List Char) (x : Json) : Prop where
  denotes : (Node.ofText text).1.Denotes x
  distinct : x.DistinctKeys
  shallow : x.nesting ≤ maxDepth
  alone : trailing? (Node.ofText text).2 = none

namespace Node

mutual

/-- A tree that has a value denotes one, which is the same unless a key comes twice. -/
theorem exists_denotes_of_value (node : Node) {depth : Nat} {x : Json}
    (h : node.value depth = .ok x) :
    ∃ y, node.Denotes y ∧ y.nesting ≤ depth ∧ (y.DistinctKeys → y = x) := by
  match node with
  | .null _ =>
    cases h
    exact ⟨_, .null, Nat.zero_le _, fun _ => rfl⟩
  | .bool _ _ =>
    cases h
    exact ⟨_, .bool, Nat.zero_le _, fun _ => rfl⟩
  | .number n _ =>
    rw [value] at h
    obtain ⟨n, rfl, rfl⟩ := map_eq_ok.mp h
    exact ⟨_, .number, Nat.zero_le _, fun _ => rfl⟩
  | .string text _ =>
    rw [value] at h
    obtain ⟨text, rfl, rfl⟩ := map_eq_ok.mp h
    exact ⟨_, .string, Nat.zero_le _, fun _ => rfl⟩
  | .array start items finish =>
    cases depth with
    | zero => cases h
    | succ depth =>
      obtain ⟨xs, hxs, h⟩ := bind_eq_ok.mp h
      obtain ⟨stop, hstop, h⟩ := bind_eq_ok.mp h
      cases mapError_eq_ok.mp hstop
      cases h
      obtain ⟨ys, hys, hdepth, heq⟩ := exists_denoteAll_of_itemValues items hxs
      refine ⟨.array ys, .array hys, Nat.succ_le_succ hdepth, fun hkeys => ?_⟩
      rw [heq hkeys]
  | .object start fields finish =>
    cases depth with
    | zero => cases h
    | succ depth =>
      obtain ⟨ms, hms, h⟩ := bind_eq_ok.mp h
      obtain ⟨stop, hstop, h⟩ := bind_eq_ok.mp h
      cases mapError_eq_ok.mp hstop
      cases h
      obtain ⟨ys, hys, hdepth, heq⟩ := exists_denoteAll_of_fieldValues fields hms
      refine ⟨.object ys, .object hys, Nat.succ_le_succ hdepth, fun hkeys => ?_⟩
      rw [heq hkeys.2, Table.merge_eq_append (t := []) (by simpa using hkeys.1), List.nil_append]
  | .broken _ => cases h

theorem exists_denoteAll_of_itemValues (items : List Item) {depth : Nat} {xs : List Json}
    (h : itemValues depth items = .ok xs) :
    ∃ ys, Item.DenoteAll items ys ∧ itemsNesting ys ≤ depth ∧ (DistinctItems ys → ys = xs) := by
  match items with
  | [] =>
    cases h
    exact ⟨[], .nil, Nat.zero_le _, fun _ => rfl⟩
  | ⟨_, node, _⟩ :: items =>
    obtain ⟨x, hx, h⟩ := bind_eq_ok.mp h
    obtain ⟨xs, hxs, h⟩ := bind_eq_ok.mp h
    cases h
    obtain ⟨y, hy, hdepth, heq⟩ := exists_denotes_of_value node hx
    obtain ⟨ys, hys, hdepths, heqs⟩ := exists_denoteAll_of_itemValues items hxs
    refine ⟨y :: ys, .cons hy hys, Nat.max_le.mpr ⟨hdepth, hdepths⟩, fun hkeys => ?_⟩
    rw [heq hkeys.1, heqs hkeys.2]

theorem exists_denoteAll_of_fieldValues (fields : List Field) {depth : Nat}
    {table members : Table Json} (h : fieldValues depth table fields = .ok members) :
    ∃ ms, Field.DenoteAll fields ms ∧ membersNesting ms ≤ depth ∧
      (DistinctMembers ms → members = Table.merge table ms) := by
  match fields with
  | [] =>
    cases h
    exact ⟨[], .nil, Nat.zero_le _, fun _ => rfl⟩
  | ⟨key, _, noColon, node, _⟩ :: fields =>
    obtain ⟨key, rfl, hmember⟩ := bind_eq_ok.mp h
    cases noColon with
    | some breakdown => cases hmember
    | none =>
      obtain ⟨x, hx, h⟩ := bind_eq_ok.mp hmember
      obtain ⟨y, hy, hdepth, heq⟩ := exists_denotes_of_value node hx
      obtain ⟨ms, hms, hdepths, heqs⟩ := exists_denoteAll_of_fieldValues fields h
      refine ⟨(key, y) :: ms, .cons hy hms, Nat.max_le.mpr ⟨hdepth, hdepths⟩, fun hkeys => ?_⟩
      rw [heqs hkeys.2, heq hkeys.1]
      rfl

end

mutual

/-- A tree has the value that it denotes, if it is not too deep and no key comes twice. -/
theorem value_eq_ok (x : Json) {node : Node} {depth : Nat} (h : node.Denotes x)
    (hkeys : x.DistinctKeys) (hdepth : x.nesting ≤ depth) : node.value depth = .ok x := by
  match x with
  | .null | .bool _ | .number _ | .string _ =>
    cases h
    rfl
  | .array xs =>
    cases h with
    | array hitems =>
    cases depth with
    | zero => exact absurd hdepth (Nat.not_succ_le_zero _)
    | succ depth =>
      have hvalues := itemValues_eq_ok xs hitems hkeys (Nat.le_of_succ_le_succ hdepth)
      rw [value]
      show (itemValues depth _ >>= _) = _
      rw [hvalues]
      rfl
  | .object ms =>
    cases h with
    | object hfields =>
    cases depth with
    | zero => exact absurd hdepth (Nat.not_succ_le_zero _)
    | succ depth =>
      have hvalues := fieldValues_eq_ok ms hfields hkeys.2 (Nat.le_of_succ_le_succ hdepth) []
      rw [Table.merge_eq_append (t := []) (by simpa using hkeys.1), List.nil_append] at hvalues
      rw [value]
      show (fieldValues depth [] _ >>= _) = _
      rw [hvalues]
      rfl

theorem itemValues_eq_ok (xs : List Json) {items : List Item} {depth : Nat}
    (h : Item.DenoteAll items xs) (hkeys : DistinctItems xs) (hdepth : itemsNesting xs ≤ depth) :
    itemValues depth items = .ok xs := by
  match xs with
  | [] =>
    cases h
    rfl
  | x :: xs =>
    cases h with
    | cons hx hxs =>
    obtain ⟨hfirst, hmore⟩ := Nat.max_le.mp hdepth
    have hvalue := value_eq_ok x hx hkeys.1 hfirst
    have hvalues := itemValues_eq_ok xs hxs hkeys.2 hmore
    rw [itemValues, hvalue, hvalues]
    rfl

theorem fieldValues_eq_ok (ms : List (String × Json)) {fields : List Field} {depth : Nat}
    (h : Field.DenoteAll fields ms) (hkeys : DistinctMembers ms)
    (hdepth : membersNesting ms ≤ depth) (table : Table Json) :
    fieldValues depth table fields = .ok (Table.merge table ms) := by
  match ms with
  | [] =>
    cases h
    rfl
  | (key, x) :: ms =>
    cases h with
    | cons hx hms =>
    obtain ⟨hfirst, hmore⟩ := Nat.max_le.mp hdepth
    have hvalue := value_eq_ok x hx hkeys.1 hfirst
    have hvalues := fieldValues_eq_ok ms hms hkeys.2 hmore (Table.insert key x table)
    rw [fieldValues]
    show (value depth _ >>= _) = _
    rw [hvalue]
    exact hvalues

end

end Node

/-- A document is what is parsed from its text. -/
theorem IsDocument.parse_eq_ok {text : List Char} {x : Json} (h : IsDocument text x) :
    parse text = .ok x := by
  have hvalue := Node.value_eq_ok x h.denotes h.distinct h.shallow
  have halone := h.alone
  rw [parse]
  generalize Node.ofText text = read at hvalue halone ⊢
  obtain ⟨node, after⟩ := read
  simp only [hvalue, halone]
  rfl

/-- What is parsed from a text is a document, if no key comes twice in the text. -/
theorem isDocument_of_parse {text : List Char} {x : Json} (h : parse text = .ok x)
    (hkeys : ∀ y, (Node.ofText text).1.Denotes y → y.DistinctKeys) : IsDocument text x := by
  rw [parse] at h
  generalize hread : Node.ofText text = read at h hkeys
  obtain ⟨node, after⟩ := read
  obtain ⟨x', hvalue, hend⟩ := bind_eq_ok.mp h
  obtain ⟨y, hdenotes, hdepth, heq⟩ := Node.exists_denotes_of_value _ hvalue
  have hdistinct := hkeys y hdenotes
  obtain rfl := heq hdistinct
  cases halone : trailing? after with
  | some fault =>
    rw [halone] at hend
    cases hend
  | none =>
    rw [halone] at hend
    cases hend
    exact ⟨by rw [hread]; exact hdenotes, hdistinct, hdepth, by rw [hread]; exact halone⟩

end Json
end AliasCheck
