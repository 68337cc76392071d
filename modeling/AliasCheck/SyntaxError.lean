import AliasCheck.Token
import AliasCheck.Text.Escape

/-!
# Why a source cannot be read

A source is refused either because some text is no token, or because an alias declaration is not
well formed. Each refusal has a cause and the byte offset that it is about.
-/

namespace AliasCheck

/-- What an alias declaration needs at some token. -/
inductive Expected where
  /-- A token of a kind that has a fixed spelling. -/
  | token (kind : Token.Kind)
  | identifier
  | typeTerm
  | propertyKey
  /-- A separator after a member of an object type, or the end of that type. -/
  | memberEnd
  deriving DecidableEq, Repr

/-- The words that stand for what was expected. -/
def Expected.describe : Expected → String
  | .token kind => s!"`{kind.spelling}`"
  | .identifier => "an identifier"
  | .typeTerm => "a type annotation"
  | .propertyKey => "a property key"
  | .memberEnd => "`;`, `,` or the end of the object type"

/-- The ways in which a source can be malformed. -/
inductive SyntaxFault where
  | unclosedComment
  | unclosedTemplate
  /-- No token starts with this character here. -/
  | strayCharacter (c : Char)
  /-- Something else stood, or the source ended, where an alias declaration needs `expected`. -/
  | unexpected (expected : Expected) (found : Option String)
  deriving DecidableEq, Repr

/-- The text of a fault. -/
def SyntaxFault.message : SyntaxFault → String
  | .unclosedComment => "unterminated block comment"
  | .unclosedTemplate => "unterminated template literal"
  | .strayCharacter c => s!"unexpected character `{Escape.ascii c}`"
  | .unexpected expected (some text) => s!"expected {expected.describe}, found `{text}`"
  | .unexpected expected none => s!"expected {expected.describe}, found end of input"

/-- A fault and where it is. -/
structure SyntaxError where
  /-- What is wrong. -/
  fault : SyntaxFault
  /-- The byte offset of the text that is wrong. -/
  offset : Nat
  /-- The line and column of that offset. -/
  position : Position
  deriving DecidableEq, Repr

namespace SyntaxError

/-- The error at a byte offset of `text`. -/
def atOffset (text : List Char) (offset : Nat) (fault : SyntaxFault) : SyntaxError :=
  ⟨fault, offset, Position.ofOffset text offset⟩

/-- The text of an error, with its place. -/
def message (e : SyntaxError) : String :=
  s!"{e.fault.message} at line {e.position.line}, column {e.position.column}"

end SyntaxError

/-! Results of readers can be compared. -/

instance decidableEqExcept {ε α : Type} [DecidableEq ε] [DecidableEq α] :
    DecidableEq (Except ε α)
  | .ok a, .ok b => decidable_of_iff (a = b) ⟨congrArg Except.ok, Except.ok.inj⟩
  | .error e, .error e' => decidable_of_iff (e = e') ⟨congrArg Except.error, Except.error.inj⟩
  | .ok _, .error _ => isFalse nofun
  | .error _, .ok _ => isFalse nofun

end AliasCheck
