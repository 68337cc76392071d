/-!
# The value of a quoted string

A string token keeps its text as written, quotes and escapes included. `unquote` gives the string
that such a text denotes. Unknown escapes denote the escaped character itself, and a `\u` escape
that names no character denotes its own text, so every token has a value.
-/

namespace AliasCheck
namespace StringLiteral

/-- The value of a hexadecimal digit. -/
def hexValue (c : Char) : Option Nat :=
  if c.isDigit then some (c.toNat - 48)
  else if 'a' ≤ c ∧ c ≤ 'f' then some (c.toNat - 87)
  else if 'A' ≤ c ∧ c ≤ 'F' then some (c.toNat - 55)
  else none

/-- The number that hexadecimal digits denote after those that gave `value`. -/
def hexNumber (value : Nat) : List Char → Option Nat
  | [] => some value
  | c :: cs => (hexValue c).bind fun d => hexNumber (16 * value + d) cs

/-- The character that the text after `\u` denotes: hexadecimal digits, with an optional plus sign
in front, of a code point that is no surrogate. -/
def codePoint (text : List Char) : Option Char :=
  let digits := match text with
    | '+' :: rest => rest
    | _ => text
  if digits = [] then none
  else (hexNumber 0 digits).bind fun n =>
    if n < 0xd800 ∨ 0xdfff < n then some (Char.ofNat n) else none

/-- The text between the quotes with its escapes replaced by what they denote. A `\u` escape takes
the next four characters, or as many as there are. -/
def decode : List Char → List Char
  | [] => []
  | '\\' :: 'n' :: cs => '\n' :: decode cs
  | '\\' :: 't' :: cs => '\t' :: decode cs
  | '\\' :: 'r' :: cs => '\r' :: decode cs
  | '\\' :: '0' :: cs => '\x00' :: decode cs
  | '\\' :: 'u' :: a :: b :: c :: d :: cs => unicode [a, b, c, d] ++ decode cs
  | '\\' :: 'u' :: cs => unicode cs
  | '\\' :: c :: cs => c :: decode cs
  | c :: cs => c :: decode cs
where
  /-- What `\u` followed by `text` denotes. -/
  unicode (text : List Char) : List Char :=
    match codePoint text with
    | some c => [c]
    | none => '\\' :: 'u' :: text

/-- A text without its first and last byte: nothing, if it has fewer than two bytes or if that
would cut a character. -/
def inside (raw : List Char) : List Char :=
  match raw with
  | first :: second :: rest =>
    if first.utf8Size = 1 ∧ ((second :: rest).getLast (by simp)).utf8Size = 1 then
      (second :: rest).dropLast
    else []
  | _ => []

/-- The string that the text of a string token denotes. -/
def unquote (raw : String) : String :=
  String.ofList (decode (inside raw.toList))

end StringLiteral
end AliasCheck
