import AliasCheck.Json.Fault
import AliasCheck.Text.StringLiteral

/-!
# Reading strings of JSON

The text of a string is read up to its closing quote. A strict reader wants the characters, so it
requires that escaped surrogates stand in pairs; a reader that only wants to get past the string
does not look at them.
-/

namespace AliasCheck
namespace Json
namespace Quoted

/-- The character that a short escape stands for. -/
def short? : Char → Option Char
  | '"' => some '"'
  | '\\' => some '\\'
  | '/' => some '/'
  | 'b' => some '\x08'
  | 'f' => some '\x0c'
  | 'n' => some '\n'
  | 'r' => some '\r'
  | 't' => some '\t'
  | _ => none

/-- The number that four hexadecimal digits stand for. -/
def hex? (a b c d : Char) : Option Nat := StringLiteral.hexNumber 0 [a, b, c, d]

/-- The fault where four hexadecimal digits are needed and `cs` stands. -/
def hexFault (offset : Nat) (cs : List Char) : Fault :=
  if byteLength (cs.take 4) < 4 then ⟨.endInString, offset + byteLength cs⟩
  else ⟨.badEscape, offset + 4⟩

def isHighSurrogate (n : Nat) : Bool := 0xd800 ≤ n && n ≤ 0xdbff

def isLowSurrogate (n : Nat) : Bool := 0xdc00 ≤ n && n ≤ 0xdfff

/-- The character that a pair of surrogates stands for. -/
def pair (high low : Nat) : Char := Char.ofNat ((high - 0xd800) * 0x400 + (low - 0xdc00) + 0x10000)

/-- The fault where the escape of a low surrogate is needed and `cs` stands. -/
def pairFault (offset : Nat) : List Char → Fault
  | [] => ⟨.endInString, offset⟩
  | ['\\'] => ⟨.endInString, offset + 1⟩
  | '\\' :: 'u' :: cs => hexFault (offset + 2) cs
  | '\\' :: _ => ⟨.unfinishedPair, offset + 2⟩
  | _ => ⟨.unfinishedPair, offset + 1⟩

/-- Puts a character in front of what is read after it. -/
def andThen (c : Char) (rest : Except Fault (List Char × Cursor)) :
    Except Fault (List Char × Cursor) :=
  rest.map fun (text, cursor) => (c :: text, cursor)

/-- Reads the text of a string behind its opening quote. -/
def body (strict : Bool) (offset : Nat) : List Char → Except Fault (List Char × Cursor)
  | [] => .error ⟨.endInString, offset⟩
  | '"' :: cs => .ok ([], ⟨offset + 1, cs⟩)
  | ['\\'] => .error ⟨.endInString, offset + 1⟩
  | '\\' :: 'u' :: a :: b :: c :: d :: cs =>
    match hex? a b c d with
    | none => .error (hexFault (offset + 2) (a :: b :: c :: d :: cs))
    | some n =>
      if !strict || (!isHighSurrogate n && !isLowSurrogate n) then
        andThen (Char.ofNat n) (body strict (offset + 6) cs)
      else if isLowSurrogate n then .error ⟨.loneSurrogate, offset + 6⟩
      else
        match cs with
        | '\\' :: 'u' :: e :: f :: g :: h :: cs =>
          match hex? e f g h with
          | none => .error (hexFault (offset + 8) (e :: f :: g :: h :: cs))
          | some low =>
            if isLowSurrogate low then andThen (pair n low) (body strict (offset + 12) cs)
            else .error ⟨.loneSurrogate, offset + 12⟩
        | _ => .error (pairFault (offset + 6) cs)
  | '\\' :: e :: cs =>
    match short? e with
    | some c => andThen c (body strict (offset + 2) cs)
    | none =>
      if e = 'u' then .error (hexFault (offset + 2) cs) else .error ⟨.badEscape, offset + 2⟩
  | c :: cs =>
    if c.toNat < 0x20 then .error ⟨.controlCharacter, offset + if strict then 1 else 0⟩
    else andThen c (body strict (offset + c.utf8Size) cs)
  termination_by structural cs => cs

end Quoted
end Json
end AliasCheck
