import AliasCheck.Text.Position

/-!
# Why JSON text cannot be read

A fault says what is wrong and at which byte offset a reader notices it. Some faults look different
to a reader that skips a value without wanting to know it, so a breakdown, which is what a reader
cannot get past at all, holds both views.
-/

namespace AliasCheck
namespace Json

/-- What is wrong with a JSON text. -/
inductive Cause where
  | endInValue | endInList | endInObject | endInString
  | noValue | noWord | noColon | noListEnd | noObjectEnd
  | keyNotString | trailingComma | trailingText
  | badNumber | numberTooGreat
  | badEscape | controlCharacter | loneSurrogate | unfinishedPair
  | tooDeep
  deriving DecidableEq, Repr

/-- The text of a cause. -/
def Cause.message : Cause → String
  | endInValue => "EOF while parsing a value"
  | endInList => "EOF while parsing a list"
  | endInObject => "EOF while parsing an object"
  | endInString => "EOF while parsing a string"
  | noValue => "expected value"
  | noWord => "expected ident"
  | noColon => "expected `:`"
  | noListEnd => "expected `,` or `]`"
  | noObjectEnd => "expected `,` or `\x7d`"
  | keyNotString => "key must be a string"
  | trailingComma => "trailing comma"
  | trailingText => "trailing characters"
  | badNumber => "invalid number"
  | numberTooGreat => "number out of range"
  | badEscape => "invalid escape"
  | controlCharacter => "control character (\\u0000-\\u001F) found while parsing a string"
  | loneSurrogate => "lone leading surrogate in hex escape"
  | unfinishedPair => "unexpected end of hex escape"
  | tooDeep => "recursion limit exceeded"

/-- A cause and where it is noticed. -/
structure Fault where
  cause : Cause
  /-- The number of bytes in front of the place. -/
  offset : Nat
  deriving DecidableEq, Repr

/-- A message with the line and column of a byte offset of `text`. -/
def located (message : String) (text : List Char) (offset : Nat) : String :=
  let p := Position.ofByteOffset text offset
  s!"{message} at line {p.line} column {p.column}"

/-- The text of a fault in `text`. -/
def Fault.message (f : Fault) (text : List Char) : String := located f.cause.message text f.offset

/-- A place that no reader gets past. -/
structure Breakdown where
  /-- The fault for a reader that wants the value. -/
  read : Fault
  /-- The fault for a reader that skips the value. -/
  skipped : Fault
  deriving DecidableEq, Repr

/-- A breakdown that looks the same to all readers. -/
def Breakdown.same (cause : Cause) (offset : Nat) : Breakdown := ⟨⟨cause, offset⟩, ⟨cause, offset⟩⟩

/-- The text that is left to be read, and how many bytes stand before it. -/
structure Cursor where
  offset : Nat
  rest : List Char
  deriving DecidableEq, Repr

namespace Cursor

/-- Blanks of JSON: space, line feed, tab and carriage return. -/
def isBlank (c : Char) : Bool := c = ' ' || c = '\n' || c = '\t' || c = '\r'

/-- The cursor `n` ASCII characters further on. -/
def skip (c : Cursor) (n : Nat) : Cursor := ⟨c.offset + n, c.rest.drop n⟩

/-- The cursor after the blanks that come next. -/
def skipBlanks (c : Cursor) : Cursor := c.skip (c.rest.takeWhile isBlank).length

end Cursor

end Json
end AliasCheck
