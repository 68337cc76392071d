import AliasCheck.Json
import AliasCheck.Json.Numeral
import AliasCheck.Json.Quoted

/-!
# JSON text as a tree

Reading a JSON text builds a tree of everything up to its end or up to the first breakdown. The tree
remembers byte offsets, so whatever is later decoded from it can say where it failed, and it keeps
the faults inside of numbers and strings apart: only a decoder that wants the value meets them.
-/

namespace AliasCheck
namespace Json

mutual

/-- A value in a JSON text, or the place where the text breaks down instead. Scalars know the offset
after them. -/
inductive Node where
  | null (stop : Nat)
  | bool (value : Bool) (stop : Nat)
  | number (value : Except Fault Number) (stop : Nat)
  | string (text : Except Fault String) (stop : Nat)
  /-- The items of a list as far as they can be read, with the offset of the opening bracket and
  that after the closing one. -/
  | array (start : Nat) (items : List Item) (finish : Except Breakdown Nat)
  /-- The members of an object as far as they can be read, with the offset of the opening brace and
  that after the closing one. -/
  | object (start : Nat) (fields : List Field) (finish : Except Breakdown Nat)
  | broken (breakdown : Breakdown)

/-- An item of a list. -/
structure Item where
  /-- The offset of its first character. -/
  start : Nat
  node : Node
  /-- The offset after the item, blanks, and a comma with blanks or the end of the list. -/
  after : Nat

/-- A member of an object. -/
structure Field where
  /-- The key. -/
  key : Except Fault String
  /-- The offset after the key, blanks, and the end of the object. -/
  afterKey : Nat
  /-- What stands where a colon is needed. -/
  noColon : Option Breakdown
  node : Node
  /-- The offset after the value, blanks, and the end of the object. -/
  after : Nat

end

/-- The offset after a value, or why the value has no end. -/
def Node.finish : Node → Except Breakdown Nat
  | .null stop | .bool _ stop | .number _ stop | .string _ stop => .ok stop
  | .array _ _ finish | .object _ _ finish => finish
  | .broken breakdown => .error breakdown

namespace Node

/-! ## Building the tree -/

/-- What comes next in a list or an object. -/
inductive Step where
  /-- The end, or a breakdown. -/
  | ends (finish : Except Breakdown Nat) (c : Cursor)
  /-- An item or a member. -/
  | entry (c : Cursor)

/-- Reading ends at `c` for this cause, which is noticed `past` bytes after it. -/
def Step.breaks (cause : Cause) (c : Cursor) (past : Nat) : Step :=
  .ends (.error (.same cause (c.offset + past))) c

/-- What comes next in a list. -/
def nextItem (first : Bool) (c : Cursor) : Step :=
  let c := c.skipBlanks
  match c.rest with
  | [] => .breaks .endInList c 0
  | ']' :: _ => .ends (.ok (c.offset + 1)) (c.skip 1)
  | d :: _ =>
    if first then .entry c
    else if d = ',' then
      let c := (c.skip 1).skipBlanks
      match c.rest with
      | [] => .breaks .endInValue c 0
      | ']' :: _ =>
        .ends (.error ⟨⟨.trailingComma, c.offset + 1⟩, ⟨.noValue, c.offset + 1⟩⟩) c
      | _ => .entry c
    else .breaks .noListEnd c 1

/-- What comes next in an object; a member begins with a quote. -/
def nextField (first : Bool) (c : Cursor) : Step :=
  let c := c.skipBlanks
  match c.rest with
  | [] => .breaks .endInObject c 0
  | '}' :: _ => .ends (.ok (c.offset + 1)) (c.skip 1)
  | d :: _ =>
    if first then
      if d = '"' then .entry c else .breaks .keyNotString c 1
    else if d = ',' then
      let c := (c.skip 1).skipBlanks
      match c.rest with
      | [] => .ends (.error ⟨⟨.endInValue, c.offset⟩, ⟨.endInObject, c.offset⟩⟩) c
      | '"' :: _ => .entry c
      | '}' :: _ =>
        .ends (.error ⟨⟨.trailingComma, c.offset + 1⟩, ⟨.keyNotString, c.offset + 1⟩⟩) c
      | _ => .breaks .keyNotString c 1
    else .breaks .noObjectEnd c 1

/-- Where a reader comes to stand that gives up on a list after an item: past the blanks, and past
the end of the list or a comma with blanks. -/
def settleItem (c : Cursor) : Nat :=
  let c := c.skipBlanks
  match c.rest with
  | ']' :: _ => c.offset + 1
  | ',' :: _ => (c.skip 1).skipBlanks.offset
  | _ => c.offset

/-- Where a reader comes to stand that gives up on an object: past the blanks, and past the end of
the object. -/
def settleField (c : Cursor) : Nat :=
  let c := c.skipBlanks
  match c.rest with
  | '}' :: _ => c.offset + 1
  | _ => c.offset

/-- Reads a string behind its opening quote: what a strict reader gets, and the cursor after it. -/
def readString (c : Cursor) : Except Breakdown (Except Fault String × Cursor) :=
  let strict := Quoted.body true c.offset c.rest
  match Quoted.body false c.offset c.rest with
  | .ok (_, after) => .ok (strict.map fun (text, _) => String.ofList text, after)
  | .error skipped =>
    match strict with
    | .error fault => .error ⟨fault, skipped⟩
    | .ok _ => .error ⟨skipped, skipped⟩

/-- Reads the letters that must follow the first one of a word. -/
def readWord (node : Nat → Node) : List Char → Cursor → Node × Cursor
  | [], c => (node c.offset, c)
  | w :: ws, c =>
    match c.rest with
    | [] => (.broken (.same .endInValue c.offset), c)
    | d :: _ =>
      if d = w then readWord node ws (c.skip 1)
      else (.broken (.same .noWord (c.offset + 1)), c)

section Containers

variable (value : Cursor → Node × Cursor)

/-- Reads the items of a list and its end. -/
def readItems : (bound : Nat) → (first : Bool) → Cursor →
    List Item × Except Breakdown Nat × Cursor
  | 0, _, c => ([], .error (.same .endInList c.offset), c)
  | bound + 1, first, c =>
    match nextItem first c with
    | .ends finish c => ([], finish, c)
    | .entry c =>
      let (node, after) := value c
      match node.finish with
      | .error breakdown => ([⟨c.offset, node, after.offset⟩], .error breakdown, after)
      | .ok _ =>
        let (items, finish, last) := readItems bound false after
        (⟨c.offset, node, settleItem after⟩ :: items, finish, last)

/-- Reads a colon and the value behind it. -/
def readAfterKey (key : Except Fault String) (c : Cursor) : Field × Cursor :=
  let afterKey := settleField c
  let c := c.skipBlanks
  match c.rest with
  | ':' :: _ =>
    let (node, after) := value (c.skip 1)
    (⟨key, afterKey, none, node, settleField after⟩, after)
  | [] =>
    let breakdown := Breakdown.same .endInObject c.offset
    (⟨key, afterKey, some breakdown, .broken breakdown, c.offset⟩, c)
  | _ =>
    let breakdown := Breakdown.same .noColon (c.offset + 1)
    (⟨key, afterKey, some breakdown, .broken breakdown, c.offset⟩, c)

/-- Reads the members of an object and its end. -/
def readFields : (bound : Nat) → (first : Bool) → Cursor →
    List Field × Except Breakdown Nat × Cursor
  | 0, _, c => ([], .error (.same .endInObject c.offset), c)
  | bound + 1, first, c =>
    match nextField first c with
    | .ends finish c => ([], finish, c)
    | .entry c =>
      match readString (c.skip 1) with
      | .error breakdown => ([], .error breakdown, c)
      | .ok (key, c) =>
        let (field, after) := readAfterKey value key c
        match field.node.finish with
        | .error breakdown => ([field], .error breakdown, after)
        | .ok _ =>
          let (fields, finish, last) := readFields bound false after
          (field :: fields, finish, last)

end Containers

/-- Reads a value from a text of at most `bound` characters. -/
def read : (bound : Nat) → Cursor → Node × Cursor
  | 0, c => (.broken (.same .endInValue c.offset), c)
  | bound + 1, c =>
    let c := c.skipBlanks
    match c.rest with
    | [] => (.broken (.same .endInValue c.offset), c)
    | 'n' :: _ => readWord .null ['u', 'l', 'l'] (c.skip 1)
    | 't' :: _ => readWord (.bool true) ['r', 'u', 'e'] (c.skip 1)
    | 'f' :: _ => readWord (.bool false) ['a', 'l', 's', 'e'] (c.skip 1)
    | '"' :: _ =>
      match readString (c.skip 1) with
      | .ok (text, after) => (.string text after.offset, after)
      | .error breakdown => (.broken breakdown, c)
    | '[' :: _ =>
      let (items, finish, after) := readItems (read bound) bound true (c.skip 1)
      (.array c.offset items finish, after)
    | '{' :: _ =>
      let (fields, finish, after) := readFields (read bound) bound true (c.skip 1)
      (.object c.offset fields finish, after)
    | d :: _ =>
      if d = '-' ∨ d.isDigit then
        match Numeral.read c with
        | .ok (numeral, after) => (.number (numeral.value after.offset) after.offset, after)
        | .error breakdown => (.broken breakdown, c)
      else (.broken (.same .noValue (c.offset + 1)), c)

/-- The tree of a text, and what stands after its first value. -/
def ofText (text : List Char) : Node × Cursor := read text.length ⟨0, text⟩

/-! ## The value of a tree -/

mutual

/-- The value that a tree denotes, in which at most `depth` lists and objects may be open at
once. -/
def value (depth : Nat) : Node → Except Fault Json
  | .null _ => .ok .null
  | .bool b _ => .ok (.bool b)
  | .number n _ => n.map .number
  | .string text _ => text.map .string
  | .array start items finish =>
    match depth with
    | 0 => .error ⟨.tooDeep, start + 1⟩
    | depth + 1 => do
      let xs ← itemValues depth items
      let _ ← finish.mapError Breakdown.read
      .ok (.array xs)
  | .object start fields finish =>
    match depth with
    | 0 => .error ⟨.tooDeep, start + 1⟩
    | depth + 1 => do
      let members ← fieldValues depth [] fields
      let _ ← finish.mapError Breakdown.read
      .ok (.object members)
  | .broken breakdown => .error breakdown.read
  termination_by structural node => node

/-- The values of the items of a list. -/
def itemValues (depth : Nat) : List Item → Except Fault (List Json)
  | [] => .ok []
  | ⟨_, node, _⟩ :: items => do
    let x ← value depth node
    let xs ← itemValues depth items
    .ok (x :: xs)
  termination_by structural items => items

/-- The members of an object after those in `members`; of two with the same key the later one
counts. -/
def fieldValues (depth : Nat) (members : Table Json) : List Field → Except Fault (Table Json)
  | [] => .ok members
  | ⟨key, _, noColon, node, _⟩ :: fields => do
    let key ← key
    match noColon with
    | some breakdown => .error breakdown.read
    | none => do
      let x ← value depth node
      fieldValues depth (Table.insert key x members) fields
  termination_by structural fields => fields

end

end Node

/-- How many lists and objects may be open at once. -/
def maxDepth : Nat := 127

/-- The fault of text that follows a value, if there is any but blanks. -/
def trailing? (c : Cursor) : Option Fault :=
  let c := c.skipBlanks
  if c.rest.isEmpty then none else some ⟨.trailingText, c.offset + 1⟩

/-- Reads a text that holds one value and nothing else. -/
def parse (text : List Char) : Except Fault Json := do
  let (node, after) := Node.ofText text
  let x ← node.value maxDepth
  match trailing? after with
  | some fault => .error fault
  | none => .ok x

end Json
end AliasCheck
