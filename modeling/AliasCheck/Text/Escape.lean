import AliasCheck.Text.Unicode.Hidden

/-!
# Escapes and quoted text

Error messages and displayed types write a character that cannot stand for itself as an escape:
a short one where there is one, else the code point in hexadecimal between braces. Strings are shown
between double quotes, with everything escaped that would not show.
-/

namespace AliasCheck

/-- The hexadecimal digits of `n`, lower case and without leading zeros. -/
def hexDigits (n : Nat) : List Char := Nat.toDigits 16 n

namespace Escape

/-- The escape that names a character by its code point, such as `\u{7f}`. -/
def codePoint (c : Char) : String :=
  String.ofList (['\\', 'u', '{'] ++ hexDigits c.toNat ++ ['}'])

/-- A character as an error message shows it: a printable ASCII character stands for itself unless
it is a quote or a backslash. -/
def ascii (c : Char) : String :=
  match c with
  | '\t' => "\\t"
  | '\r' => "\\r"
  | '\n' => "\\n"
  | '\'' => "\\'"
  | '"' => "\\\""
  | '\\' => "\\\\"
  | c => if 0x20 ≤ c.toNat ∧ c.toNat ≤ 0x7e then String.singleton c else codePoint c

end Escape

namespace Quote

/-- A character as it stands between the quotes. -/
def char (c : Char) : String :=
  match c with
  | '\x00' => "\\0"
  | '\t' => "\\t"
  | '\r' => "\\r"
  | '\n' => "\\n"
  | '"' => "\\\""
  | '\\' => "\\\\"
  | c => if Unicode.isHidden c then Escape.codePoint c else String.singleton c

end Quote

/-- A string between quotes, with everything escaped that would not show. -/
def quote (s : String) : String := "\"" ++ String.join (s.toList.map Quote.char) ++ "\""

end AliasCheck
