import AliasCheck.Json.Write
import AliasCheck.Proofs.JsonGrammar

/-!
# Reading back written JSON

The tree that a reader makes of a JSON text denotes a value if no part of it is broken. The text
that is written for a value is read as a tree that denotes it, but for the numbers: those with a
fraction are rounded when they are read. Values are written in two ways, which differ only in the
blanks between their parts, so both are treated as one way that takes these blanks.
-/

namespace AliasCheck
namespace Json

/-! ## Values without numbers -/

mutual

/-- No number occurs in the value. -/
def NumberFree : Json → Prop
  | null | bool _ | string _ => True
  | number _ => False
  | array items => NumberFreeItems items
  | object members => NumberFreeMembers members

/-- No number occurs in the items. -/
def NumberFreeItems : List Json → Prop
  | [] => True
  | x :: xs => NumberFree x ∧ NumberFreeItems xs

/-- No number occurs in the members. -/
def NumberFreeMembers : List (String × Json) → Prop
  | [] => True
  | (_, x) :: xs => NumberFree x ∧ NumberFreeMembers xs

end

/-! ## What a tree denotes -/

mutual

/-- The tree is complete and denotes the value. -/
inductive Node.Denotes : Node → Json → Prop where
  | null {stop : Nat} : Node.Denotes (.null stop) .null
  | bool {b : Bool} {stop : Nat} : Node.Denotes (.bool b stop) (.bool b)
  | number {n : Number} {stop : Nat} : Node.Denotes (.number (.ok n) stop) (.number n)
  | string {s : String} {stop : Nat} : Node.Denotes (.string (.ok s) stop) (.string s)
  | array {start stop : Nat} {items : List Item} {xs : List Json}
      (h : Item.DenoteAll items xs) : Node.Denotes (.array start items (.ok stop)) (.array xs)
  | object {start stop : Nat} {fields : List Field} {ms : List (String × Json)}
      (h : Field.DenoteAll fields ms) : Node.Denotes (.object start fields (.ok stop)) (.object ms)

/-- The items of a list denote the values, one by one. -/
inductive Item.DenoteAll : List Item → List Json → Prop where
  | nil : Item.DenoteAll [] []
  | cons {start after : Nat} {node : Node} {items : List Item} {x : Json} {xs : List Json}
      (h : Node.Denotes node x) (hs : Item.DenoteAll items xs) :
      Item.DenoteAll (⟨start, node, after⟩ :: items) (x :: xs)

/-- The members of an object denote the keys and values, one by one. -/
inductive Field.DenoteAll : List Field → List (String × Json) → Prop where
  | nil : Field.DenoteAll [] []
  | cons {afterKey after : Nat} {node : Node} {fields : List Field} {key : String} {x : Json}
      {ms : List (String × Json)} (h : Node.Denotes node x) (hs : Field.DenoteAll fields ms) :
      Field.DenoteAll (⟨.ok key, afterKey, none, node, after⟩ :: fields) ((key, x) :: ms)

end

/-- A tree that denotes a value has an end. -/
theorem Node.Denotes.finish_ok {node : Node} {x : Json} (h : Node.Denotes node x) :
    ∃ stop, node.finish = .ok stop := by
  cases h <;> exact ⟨_, rfl⟩

/-! ## Numbers in values -/

mutual

/-- Every number in the value is such a number. -/
def AllNumbers (p : Number → Prop) : Json → Prop
  | null | bool _ | string _ => True
  | number n => p n
  | array items => AllNumbersIn p items
  | object members => AllNumbersOf p members

/-- Every number in the items is such a number. -/
def AllNumbersIn (p : Number → Prop) : List Json → Prop
  | [] => True
  | x :: xs => AllNumbers p x ∧ AllNumbersIn p xs

/-- Every number in the members is such a number. -/
def AllNumbersOf (p : Number → Prop) : List (String × Json) → Prop
  | [] => True
  | (_, x) :: ms => AllNumbers p x ∧ AllNumbersOf p ms

end

mutual

/-- The value with its numbers replaced. -/
def mapNumbers (f : Number → Number) : Json → Json
  | null => null
  | bool b => bool b
  | string s => string s
  | number n => number (f n)
  | array items => array (mapItems f items)
  | object members => object (mapMembers f members)

/-- The items with their numbers replaced. -/
def mapItems (f : Number → Number) : List Json → List Json
  | [] => []
  | x :: xs => mapNumbers f x :: mapItems f xs

/-- The members with their numbers replaced. -/
def mapMembers (f : Number → Number) : List (String × Json) → List (String × Json)
  | [] => []
  | (key, x) :: ms => (key, mapNumbers f x) :: mapMembers f ms

end

section NumberFree

variable {p : Number → Prop} {f : Number → Number}

mutual

theorem NumberFree.all {x : Json} (hx : x.NumberFree) : x.AllNumbers p ∧ x.mapNumbers f = x := by
  match x with
  | .null | .bool _ | .string _ => exact ⟨trivial, rfl⟩
  | .array xs =>
    obtain ⟨hall, heq⟩ := NumberFreeItems.all hx
    exact ⟨hall, congrArg array heq⟩
  | .object ms =>
    obtain ⟨hall, heq⟩ := NumberFreeMembers.all hx
    exact ⟨hall, congrArg object heq⟩

theorem NumberFreeItems.all {xs : List Json} (hxs : NumberFreeItems xs) :
    AllNumbersIn p xs ∧ mapItems f xs = xs := by
  match xs with
  | [] => exact ⟨trivial, rfl⟩
  | x :: xs =>
    obtain ⟨hx, heq⟩ := NumberFree.all hxs.1
    obtain ⟨hall, heqs⟩ := NumberFreeItems.all hxs.2
    exact ⟨⟨hx, hall⟩, by rw [mapItems, heq, heqs]⟩

theorem NumberFreeMembers.all {ms : List (String × Json)} (hms : NumberFreeMembers ms) :
    AllNumbersOf p ms ∧ mapMembers f ms = ms := by
  match ms with
  | [] => exact ⟨trivial, rfl⟩
  | (key, x) :: ms =>
    obtain ⟨hx, heq⟩ := NumberFree.all hms.1
    obtain ⟨hall, heqs⟩ := NumberFreeMembers.all hms.2
    exact ⟨⟨hx, hall⟩, by rw [mapMembers, heq, heqs]⟩

end

end NumberFree

/-! ## Strings -/

namespace Quoted

/-- Four hexadecimal digits, the last two of which `Nat.digitChar` wrote. -/
theorem hex?_digitChar {n : Nat} (h : n < 0x20) :
    hex? '0' '0' (Nat.digitChar (n / 16)) (Nat.digitChar (n % 16)) = some n := by
  have all : ∀ n < 0x20,
      hex? '0' '0' (Nat.digitChar (n / 16)) (Nat.digitChar (n % 16)) = some n := by decide
  exact all n h

/-- An escaped character is read as that character. -/
theorem body_escape (strict : Bool) (c : Char) (offset : Nat) :
    ∃ offset', ∀ cs, body strict offset (escape c ++ cs) = andThen c (body strict offset' cs) := by
  unfold escape
  split
  iterate 7 exact ⟨offset + 2, fun cs => by simp [body, short?]⟩
  rename_i hquote hslash _ _ _ _ _
  split
  · rename_i hsmall
    have hhex := hex?_digitChar hsmall
    have hhigh : isHighSurrogate c.toNat = false := by simp [isHighSurrogate]; omega
    have hlow : isLowSurrogate c.toNat = false := by simp [isLowSurrogate]; omega
    refine ⟨offset + 6, fun cs => ?_⟩
    simp [body, hhex, hhigh, hlow, Char.ofNat_toNat]
  · rename_i hshown
    exact ⟨offset + c.utf8Size, body_plain hquote hslash hshown strict offset⟩

/-- A written string is read up to its closing quote. -/
theorem body_written (strict : Bool) (s : List Char) (offset : Nat) : ∃ offset', ∀ rest,
    body strict offset (s.flatMap escape ++ '"' :: rest) = .ok (s, ⟨offset', rest⟩) := by
  induction s generalizing offset with
  | nil => exact ⟨offset + 1, fun rest => body_quote strict offset rest⟩
  | cons c s ih =>
    obtain ⟨next, hc⟩ := body_escape strict c offset
    obtain ⟨offset', hs⟩ := ih next
    refine ⟨offset', fun rest => ?_⟩
    rw [List.flatMap_cons, List.append_assoc, hc, hs]
    rfl

end Quoted

/-- A written string is the text of a string. -/
theorem isString_written (s : String) (start : Nat) :
    ∃ stop, Node.IsString start (s.toList.flatMap escape ++ ['"']) (.ok s) stop := by
  obtain ⟨_, hstrict⟩ := Quoted.body_written true s.toList start
  obtain ⟨stop, hlax⟩ := Quoted.body_written false s.toList start
  refine ⟨stop, fun rest => ?_⟩
  rw [List.append_assoc, List.singleton_append]
  simp only [Node.readString, hstrict, hlax]
  simp [Except.map]

/-! ## Writing with blanks -/

/-- The blanks between the parts of a written value. -/
structure Spacing where
  /-- The blanks in front of what stands at a level. -/
  line : (level : Nat) → List Char
  /-- The blanks behind a colon. -/
  colon : List Char
  line_blanks : ∀ level, Blanks (line level)
  colon_blanks : Blanks colon

/-- No blanks at all. -/
def Spacing.none : Spacing := ⟨fun _ => [], [], fun _ => Blanks.nil, Blanks.nil⟩

theorem blanks_newLine (level : Nat) : Blanks (newLine level) := by
  intro d hd
  simp only [newLine, List.mem_cons, List.mem_replicate] at hd
  rcases hd with rfl | ⟨_, rfl⟩ <;> rfl

theorem blanks_space : Blanks [' '] := by
  intro d hd
  rw [List.mem_singleton.mp hd]
  rfl

/-- The blanks of a text that is written over lines. -/
def Spacing.lines : Spacing := ⟨newLine, [' '], blanks_newLine, blanks_space⟩

section Spaced

variable (blanks : Spacing)

mutual

/-- The text of a value with blanks between its parts, `level` steps deep. -/
def spaced (level : Nat) : Json → List Char
  | array (x :: xs) =>
    '[' :: (blanks.line (level + 1) ++ (spaced (level + 1) x ++ spacedItems level xs))
  | object ((key, x) :: ms) =>
    '{' :: (blanks.line (level + 1) ++ (writeString key ++ ':' :: (blanks.colon
      ++ (spaced (level + 1) x ++ spacedMembers level ms))))
  | array [] => ['[', ']']
  | object [] => ['{', '}']
  | null => write null
  | bool b => write (bool b)
  | number n => write (number n)
  | string s => write (string s)
  termination_by structural x => x

/-- The text of the items of a list after its first, and the end of the list. -/
def spacedItems (level : Nat) : List Json → List Char
  | [] => blanks.line level ++ [']']
  | x :: xs =>
    ',' :: (blanks.line (level + 1) ++ (spaced (level + 1) x ++ spacedItems level xs))
  termination_by structural x => x

/-- The text of the members of an object after its first, and the end of the object. -/
def spacedMembers (level : Nat) : List (String × Json) → List Char
  | [] => blanks.line level ++ ['}']
  | (key, x) :: ms =>
    ',' :: (blanks.line (level + 1) ++ (writeString key ++ ':' :: (blanks.colon
      ++ (spaced (level + 1) x ++ spacedMembers level ms))))
  termination_by structural x => x

end

end Spaced

mutual

theorem write_eq_spaced (x : Json) (level : Nat) : x.write = x.spaced .none level := by
  match x with
  | .null | .bool _ | .number _ | .string _ | .array [] | .object [] => rfl
  | .array (x :: xs) =>
    rw [write, spaced, write_eq_spaced x (level + 1), writeItems_eq_spaced xs level]
    rfl
  | .object ((key, x) :: ms) =>
    rw [write, spaced, write_eq_spaced x (level + 1), writeMembers_eq_spaced ms level]
    rfl

theorem writeItems_eq_spaced (xs : List Json) (level : Nat) :
    writeItems xs = spacedItems .none level xs := by
  match xs with
  | [] => rfl
  | x :: xs =>
    rw [writeItems, spacedItems, write_eq_spaced x (level + 1), writeItems_eq_spaced xs level]
    rfl

theorem writeMembers_eq_spaced (ms : List (String × Json)) (level : Nat) :
    writeMembers ms = spacedMembers .none level ms := by
  match ms with
  | [] => rfl
  | (key, x) :: ms =>
    rw [writeMembers, spacedMembers, write_eq_spaced x (level + 1),
      writeMembers_eq_spaced ms level]
    rfl

end

mutual

theorem writeLines_eq_spaced (x : Json) (level : Nat) :
    x.writeLines level = x.spaced .lines level := by
  match x with
  | .null | .bool _ | .number _ | .string _ | .array [] | .object [] => rfl
  | .array (x :: xs) =>
    rw [writeLines, spaced, writeLines_eq_spaced x (level + 1), writeItemLines_eq_spaced xs level,
      List.append_assoc]
    rfl
  | .object ((key, x) :: ms) =>
    rw [writeLines, spaced, writeLines_eq_spaced x (level + 1),
      writeMemberLines_eq_spaced ms level]
    simp only [List.append_assoc, List.cons_append]
    rfl

theorem writeItemLines_eq_spaced (xs : List Json) (level : Nat) :
    writeItemLines level xs = spacedItems .lines level xs := by
  match xs with
  | [] => rfl
  | x :: xs =>
    rw [writeItemLines, spacedItems, writeLines_eq_spaced x (level + 1),
      writeItemLines_eq_spaced xs level, List.append_assoc]
    rfl

theorem writeMemberLines_eq_spaced (ms : List (String × Json)) (level : Nat) :
    writeMemberLines level ms = spacedMembers .lines level ms := by
  match ms with
  | [] => rfl
  | (key, x) :: ms =>
    rw [writeMemberLines, spacedMembers, writeLines_eq_spaced x (level + 1),
      writeMemberLines_eq_spaced ms level]
    simp only [List.append_assoc, List.cons_append]
    rfl

end

/-! ## Reading back -/

/-- The text of a number is that of a numeral, whose value is the number `m`. -/
def Number.ReadsAs (n m : Number) : Prop :=
  ∃ numeral : Numeral, numeral.IsText n.write ∧ ∀ stop, numeral.value stop = .ok m

section ReadBack

variable {f : Number → Number} (blanks : Spacing)

mutual

/-- The text of a value is that of a tree which denotes the value with its numbers as they are
read. -/
theorem spelled_spaced (x : Json) (hx : x.AllNumbers fun n => n.ReadsAs (f n))
    (level start : Nat) : ∃ node stop,
      Spelled .value start (x.spaced blanks level) node stop ∧ node.Denotes (x.mapNumbers f) := by
  match x with
  | .null => exact ⟨_, _, .null, .null⟩
  | .bool true => exact ⟨_, _, .trueWord, .bool⟩
  | .bool false => exact ⟨_, _, .falseWord, .bool⟩
  | .number n =>
    obtain ⟨numeral, htext, hvalue⟩ := hx
    refine ⟨_, _, .number htext, ?_⟩
    rw [hvalue]
    exact .number
  | .string s =>
    obtain ⟨stop, hs⟩ := isString_written s (start + 1)
    exact ⟨_, _, .string hs, .string⟩
  | .array [] => exact ⟨_, _, .array (.itemsEnd Blanks.nil), .array .nil⟩
  | .array (x :: xs) =>
    obtain ⟨node, mid, hnode, hdenotes⟩ := spelled_spaced x hx.1 (level + 1) _
    obtain ⟨items, stop, hitems, hdenote⟩ := spelled_spacedItems xs hx.2 level mid
    have hfirst := Separator.first (blanks.line_blanks (level + 1))
    exact ⟨_, _, .array (.item hfirst hnode hitems), .array (.cons hdenotes hdenote)⟩
  | .object [] => exact ⟨_, _, .object (.fieldsEnd Blanks.nil), .object .nil⟩
  | .object ((key, x) :: ms) =>
    obtain ⟨afterKey, hkey⟩ :=
      isString_written key (start + 1 + (blanks.line (level + 1)).length + 1)
    obtain ⟨node, mid, hnode, hdenotes⟩ := spelled_spaced x hx.1 (level + 1) _
    obtain ⟨fields, stop, hfields, hdenote⟩ := spelled_spacedMembers ms hx.2 level mid
    have hfirst := Separator.first (blanks.line_blanks (level + 1))
    have hall := Spelled.field hfirst hkey Blanks.nil blanks.colon_blanks hnode hfields
    exact ⟨_, _, .object hall, .object (.cons hdenotes hdenote)⟩

theorem spelled_spacedItems (xs : List Json) (hxs : AllNumbersIn (fun n => n.ReadsAs (f n)) xs)
    (level start : Nat) : ∃ items stop,
      Spelled (.items false) start (spacedItems blanks level xs) items stop ∧
        Item.DenoteAll items (mapItems f xs) := by
  match xs with
  | [] => exact ⟨_, _, .itemsEnd (blanks.line_blanks level), .nil⟩
  | x :: xs =>
    obtain ⟨node, mid, hnode, hdenotes⟩ := spelled_spaced x hxs.1 (level + 1) _
    obtain ⟨items, stop, hitems, hdenote⟩ := spelled_spacedItems xs hxs.2 level mid
    have hlater := Separator.later Blanks.nil (blanks.line_blanks (level + 1))
    exact ⟨_, _, .item hlater hnode hitems, .cons hdenotes hdenote⟩

theorem spelled_spacedMembers (ms : List (String × Json))
    (hms : AllNumbersOf (fun n => n.ReadsAs (f n)) ms) (level start : Nat) : ∃ fields stop,
      Spelled (.fields false) start (spacedMembers blanks level ms) fields stop ∧
        Field.DenoteAll fields (mapMembers f ms) := by
  match ms with
  | [] => exact ⟨_, _, .fieldsEnd (blanks.line_blanks level), .nil⟩
  | (key, x) :: ms =>
    have hlater := Separator.later Blanks.nil (blanks.line_blanks (level + 1))
    obtain ⟨afterKey, hkey⟩ :=
      isString_written key (start + ([] ++ ',' :: blanks.line (level + 1)).length + 1)
    obtain ⟨node, mid, hnode, hdenotes⟩ := spelled_spaced x hms.1 (level + 1) _
    obtain ⟨fields, stop, hfields, hdenote⟩ := spelled_spacedMembers ms hms.2 level mid
    have hall := Spelled.field hlater hkey Blanks.nil blanks.colon_blanks hnode hfields
    exact ⟨_, _, hall, .cons hdenotes hdenote⟩

end

end ReadBack

namespace Node

/-- The shortest text of a value is read to its end, as a tree that denotes the value with its
numbers as they are read. -/
theorem ofText_compact {f : Number → Number} {x : Json}
    (hx : x.AllNumbers fun n => n.ReadsAs (f n)) :
    ∃ node stop, ofText x.compact.toList = (node, ⟨stop, []⟩) ∧
      node.Denotes (x.mapNumbers f) := by
  obtain ⟨node, stop, hspelled, hdenotes⟩ := spelled_spaced .none x hx 0 0
  have hapart : node.Apart [] := fun _ d hd => by cases hd
  have hread := ofText_of_spelled Blanks.nil hspelled hapart
  rw [List.nil_append, List.append_nil, ← write_eq_spaced] at hread
  exact ⟨node, stop, by rw [compact, String.toList_ofList, hread], hdenotes⟩

/-- The tree of the text that is written for readers denotes the value that was written. -/
theorem denotes_ofText_pretty {x : Json} (hx : x.NumberFree) :
    (ofText x.pretty.toList).1.Denotes x := by
  obtain ⟨hall, hmap⟩ := hx.all (p := fun n => n.ReadsAs n) (f := fun n => n)
  obtain ⟨node, stop, hspelled, hdenotes⟩ := spelled_spaced .lines x hall 0 0
  have hapart : node.Apart [] := fun _ d hd => by cases hd
  have hread := ofText_of_spelled Blanks.nil hspelled hapart
  rw [List.nil_append, List.append_nil, ← writeLines_eq_spaced] at hread
  rw [pretty, String.toList_ofList, hread]
  exact hmap ▸ hdenotes

end Node

end Json
end AliasCheck
