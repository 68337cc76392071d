import AliasCheck.Text.Position

/-!
# Tokens of an annotated source

A source is JavaScript with type annotations. Only type aliases are read closely, but all of the
text has to fall into tokens, so there is a kind for every piece of code that can stand around an
alias: regular expressions, templates, and operators that are only ever skipped.
-/

namespace AliasCheck

/-- The kinds of token. -/
inductive Token.Kind where
  | identifier | string | template | number
  | openBrace | closeBrace | openParen | closeParen
  | openBracket | closeBracket | openAngle | closeAngle
  | semicolon | comma | colon | question | pipe | ampersand | equals | arrow
  | dot | ellipsis | minus | plus | star | slash
  /-- An operator that no annotation uses. -/
  | operator
  /-- A regular expression with its slashes and flags. -/
  | regex
  deriving DecidableEq, Repr

/-- A piece of a source that is neither blank nor a comment. -/
structure Token where
  /-- What sort of token it is. -/
  kind : Token.Kind
  /-- The text of the token as it stands in the source. -/
  text : String
  /-- The byte offset of its first character. -/
  start : Nat
  deriving DecidableEq, Repr

namespace Token

/-- The byte offset of the end of the token. -/
def stop (t : Token) : Nat := t.start + byteLength t.text.toList

/-- The token is the identifier `word`. -/
def isWord (word : String) (t : Token) : Bool := t.kind == .identifier && t.text == word

/-- The text of the kinds that have only one; empty for the others. -/
def Kind.spelling : Kind → String
  | .openBrace => "\x7b"
  | .closeBrace => "\x7d"
  | .openParen => "("
  | .closeParen => ")"
  | .openBracket => "["
  | .closeBracket => "]"
  | .openAngle => "<"
  | .closeAngle => ">"
  | .semicolon => ";"
  | .comma => ","
  | .colon => ":"
  | .question => "?"
  | .pipe => "|"
  | .ampersand => "&"
  | .equals => "="
  | .arrow => "=>"
  | .dot => "."
  | .ellipsis => "..."
  | .minus => "-"
  | .plus => "+"
  | .star => "*"
  | .slash => "/"
  | .identifier | .string | .template | .number | .operator | .regex => ""

end Token

end AliasCheck
