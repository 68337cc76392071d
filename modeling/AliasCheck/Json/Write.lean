import AliasCheck.Json
import AliasCheck.Text.Escape

/-!
# Writing JSON

A value is written either without any blanks or spread over lines with two blanks per level. In
strings only what must be escaped is: quotes, backslashes and control characters.
-/

namespace AliasCheck
namespace Json

/-- The text of a character between quotes. -/
def escape (c : Char) : List Char :=
  match c with
  | '"' => ['\\', '"']
  | '\\' => ['\\', '\\']
  | '\x08' => ['\\', 'b']
  | '\x0c' => ['\\', 'f']
  | '\n' => ['\\', 'n']
  | '\r' => ['\\', 'r']
  | '\t' => ['\\', 't']
  | c =>
    if c.toNat < 0x20 then
      ['\\', 'u', '0', '0', Nat.digitChar (c.toNat / 16), Nat.digitChar (c.toNat % 16)]
    else [c]

/-- The text of a string, with its quotes. -/
def writeString (s : String) : List Char := '"' :: (s.toList.flatMap escape ++ ['"'])

mutual

/-- The text of a value without blanks. -/
def write : Json → List Char
  | null => ['n', 'u', 'l', 'l']
  | bool true => ['t', 'r', 'u', 'e']
  | bool false => ['f', 'a', 'l', 's', 'e']
  | number n => n.write
  | string s => writeString s
  | array [] => ['[', ']']
  | array (x :: xs) => '[' :: (write x ++ writeItems xs)
  | object [] => ['{', '}']
  | object ((key, x) :: xs) => '{' :: (writeString key ++ ':' :: (write x ++ writeMembers xs))
  termination_by structural x => x

/-- The text of the items of a list after its first, and the end of the list. -/
def writeItems : List Json → List Char
  | [] => [']']
  | x :: xs => ',' :: (write x ++ writeItems xs)
  termination_by structural x => x

/-- The text of the members of an object after its first, and the end of the object. -/
def writeMembers : List (String × Json) → List Char
  | [] => ['}']
  | (key, x) :: xs => ',' :: (writeString key ++ ':' :: (write x ++ writeMembers xs))
  termination_by structural x => x

end

/-- A new line that is indented by `level` steps. -/
def newLine (level : Nat) : List Char := '\n' :: List.replicate (2 * level) ' '

mutual

/-- The text of a value spread over lines, `level` steps deep. -/
def writeLines (level : Nat) : Json → List Char
  | array (x :: xs) =>
    '[' :: (newLine (level + 1) ++ writeLines (level + 1) x ++ writeItemLines level xs)
  | object ((key, x) :: xs) =>
    '{' :: (newLine (level + 1) ++ writeString key ++ ':' :: ' ' :: writeLines (level + 1) x
      ++ writeMemberLines level xs)
  | array [] => ['[', ']']
  | object [] => ['{', '}']
  | null => write null
  | bool b => write (bool b)
  | number n => write (number n)
  | string s => write (string s)
  termination_by structural x => x

/-- The text of the items of a list after its first, each on a line of its own. -/
def writeItemLines (level : Nat) : List Json → List Char
  | [] => newLine level ++ [']']
  | x :: xs => ',' :: (newLine (level + 1) ++ writeLines (level + 1) x ++ writeItemLines level xs)
  termination_by structural x => x

/-- The text of the members of an object after its first, each on a line of its own. -/
def writeMemberLines (level : Nat) : List (String × Json) → List Char
  | [] => newLine level ++ ['}']
  | (key, x) :: xs =>
    ',' :: (newLine (level + 1) ++ writeString key ++ ':' :: ' ' :: writeLines (level + 1) x
      ++ writeMemberLines level xs)
  termination_by structural x => x

end

/-- The shortest text of a value. -/
def compact (x : Json) : String := String.ofList (write x)

/-- The text of a value for readers. -/
def pretty (x : Json) : String := String.ofList (writeLines 0 x)

end Json
end AliasCheck
