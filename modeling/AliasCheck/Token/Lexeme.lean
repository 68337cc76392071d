import AliasCheck.SyntaxError

/-!
# The lexeme at the beginning of a text

Reading a source means cutting off one lexeme after the other: a stretch of blanks, a comment, or a
token. Each is as long as it can be. The functions here say what a lexeme is made of; all of them
work on the list of characters that is still to be read and return the part that the lexeme takes.
-/

namespace AliasCheck

/-- What stands at the beginning of a text. -/
inductive Lexeme where
  /-- A blank stretch or a comment. -/
  | blank (text : List Char)
  | token (kind : Token.Kind) (text : List Char)
  /-- No lexeme starts here. -/
  | broken (fault : SyntaxFault)
  deriving DecidableEq, Repr

namespace Lexeme

/-! ## Characters -/

/-- Space, tab, carriage return, line feed and form feed. -/
def isBlank (c : Char) : Bool := c = ' ' || c = '\t' || c = '\r' || c = '\n' || c = '\x0c'

/-- Every character beyond ASCII counts as a letter. -/
def isIdentifierStart (c : Char) : Bool := c.isAlpha || c = '_' || c = '$' || 0x80 ≤ c.toNat

def isIdentifierPart (c : Char) : Bool := isIdentifierStart c || c.isDigit

/-- A digit, or the bar that may separate digits. -/
def isDigitOrBar (c : Char) : Bool := c.isDigit || c = '_'

/-- A hexadecimal digit, or the bar that may separate digits. -/
def isHexDigitOrBar (c : Char) : Bool :=
  isDigitOrBar c || ('a' ≤ c && c ≤ 'f') || ('A' ≤ c && c ≤ 'F')

/-! ## Numbers -/

/-- The exponent at the beginning of a text; empty if there is none or it has no digits. -/
def exponent : List Char → List Char
  | [] => []
  | e :: cs =>
    let sign := match cs with
      | s :: _ => if s = '+' ∨ s = '-' then [s] else []
      | [] => []
    let digits := (cs.drop sign.length).takeWhile Char.isDigit
    if (e = 'e' ∨ e = 'E') ∧ digits ≠ [] then e :: (sign ++ digits) else []

/-- The fraction at the beginning of a text: a point and any number of digits. -/
def fraction : List Char → List Char
  | '.' :: cs => '.' :: cs.takeWhile isDigitOrBar
  | _ => []

/-- A decimal number whose first character is a digit. -/
def decimal (cs : List Char) : List Char :=
  let whole := cs.takeWhile isDigitOrBar
  let part := fraction (cs.drop whole.length)
  whole ++ part ++ exponent (cs.drop (whole.length + part.length))

/-- The digits after `0x`, `0b` or `0o`, in either case; each base takes all hexadecimal digits. -/
def radixDigits : List Char → List Char
  | '0' :: x :: cs =>
    if x ∈ ['x', 'X', 'b', 'B', 'o', 'O'] then cs.takeWhile isHexDigitOrBar else []
  | _ => []

/-- The number at the beginning of a text whose first character is a digit. -/
def number (cs : List Char) : List Char :=
  let digits := radixDigits cs
  if digits = [] then decimal cs else cs.take 2 ++ digits

/-- The rest of a number that begins with a point; empty if no digit follows the point. -/
def pointDigits (cs : List Char) : List Char :=
  let digits := cs.takeWhile Char.isDigit
  if digits = [] then [] else digits ++ exponent (cs.drop digits.length)

/-! ## Lexemes that run to a closing mark -/

/-- The text up to and with the closing `quote`, which must stand on the same line; a backslash
takes the next character with it. `escaped` says that a backslash stands before the text. -/
def quoted (quote : Char) : (escaped : Bool) → List Char → Option (List Char)
  | _, [] => none
  | escaped, c :: cs =>
    if c = '\n' then none
    else if escaped then (quoted quote false cs).map (c :: ·)
    else if c = quote then some [c]
    else (quoted quote (c = '\\') cs).map (c :: ·)

/-- The text up to and with the closing mark of a template; a backslash takes the next character
with it. -/
def template : (escaped : Bool) → List Char → Option (List Char)
  | _, [] => none
  | escaped, c :: cs =>
    if escaped then (template false cs).map (c :: ·)
    else if c = '`' then some [c]
    else (template (c = '\\') cs).map (c :: ·)

/-- The text up to and with the first `*/`. -/
def comment : List Char → Option (List Char)
  | [] => none
  | '*' :: '/' :: _ => some ['*', '/']
  | c :: cs => (comment cs).map (c :: ·)

/-- The text up to and with the closing slash of a regular expression and the flags after it. The
slash must stand on the same line; one that is escaped or between brackets does not close. -/
def regex : (escaped inClass : Bool) → List Char → Option (List Char)
  | _, _, [] => none
  | escaped, inClass, c :: cs =>
    if c = '\n' ∨ c = '\r' then none
    else if escaped then (regex false inClass cs).map (c :: ·)
    else if c = '\\' then (regex true inClass cs).map (c :: ·)
    else if c = '[' then (regex false true cs).map (c :: ·)
    else if c = ']' then (regex false false cs).map (c :: ·)
    else if c = '/' ∧ !inClass then some (c :: cs.takeWhile Char.isAlpha)
    else (regex false inClass cs).map (c :: ·)

/-! ## Putting them together -/

/-- The kind of a token that is this character alone, whatever follows it. -/
def punctuation : Char → Option Token.Kind
  | '{' => some .openBrace
  | '}' => some .closeBrace
  | '(' => some .openParen
  | ')' => some .closeParen
  | '[' => some .openBracket
  | ']' => some .closeBracket
  | '<' => some .openAngle
  | '>' => some .closeAngle
  | ';' => some .semicolon
  | ',' => some .comma
  | ':' => some .colon
  | '?' => some .question
  | '|' => some .pipe
  | '&' => some .ampersand
  | '-' => some .minus
  | '+' => some .plus
  | '*' => some .star
  | '!' | '%' | '^' | '~' | '\\' | '@' | '#' => some .operator
  | _ => none

/-- A lexeme that begins with `first` and needs a closing mark. -/
def closed (fault : SyntaxFault) (lexeme : List Char → Lexeme) (first : List Char)
    (body : Option (List Char)) : Lexeme :=
  match body with
  | some text => lexeme (first ++ text)
  | none => .broken fault

/-- The lexeme that begins with a slash: a comment, a regular expression where `regexAllowed`
says that one may stand here, else the slash alone. -/
def afterSlash (regexAllowed : Bool) (cs : List Char) : Lexeme :=
  match cs with
  | '/' :: rest => .blank ('/' :: '/' :: rest.takeWhile (· ≠ '\n'))
  | '*' :: rest => closed .unclosedComment .blank ['/', '*'] (comment rest)
  | _ =>
    match if regexAllowed then regex false false cs else none with
    | some text => .token .regex ('/' :: text)
    | none => .token .slash ['/']

/-- The lexeme that begins with a point. -/
def afterPoint (cs : List Char) : Lexeme :=
  match cs with
  | '.' :: '.' :: _ => .token .ellipsis ['.', '.', '.']
  | _ =>
    if pointDigits cs = [] then .token .dot ['.'] else .token .number ('.' :: pointDigits cs)

/-- The lexeme that begins with an equals sign. -/
def afterEquals : List Char → Lexeme
  | '>' :: _ => .token .arrow ['=', '>']
  | _ => .token .equals ['=']

/-- The lexeme at the beginning of the text `c :: cs`. -/
def read (regexAllowed : Bool) (c : Char) (cs : List Char) : Lexeme :=
  if isBlank c then .blank (c :: cs.takeWhile isBlank)
  else if isIdentifierStart c then .token .identifier (c :: cs.takeWhile isIdentifierPart)
  else if c.isDigit then .token .number (number (c :: cs))
  else
    match c with
    | '"' | '\'' => closed (.strayCharacter c) (.token .string) [c] (quoted c false cs)
    | '`' => closed .unclosedTemplate (.token .template) [c] (template false cs)
    | '/' => afterSlash regexAllowed cs
    | '.' => afterPoint cs
    | '=' => afterEquals cs
    | _ =>
      match punctuation c with
      | some kind => .token kind [c]
      | none => .broken (.strayCharacter c)

end Lexeme

end AliasCheck
