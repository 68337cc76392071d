import AliasCheck.Token.Lexeme

/-!
# Cutting a source into tokens

`Token.scan` reads a text from left to right, one lexeme at a time, and keeps the tokens. What a
slash means depends on the token before it, which is the only thing that one step has to know about
those before it.
-/

namespace AliasCheck
namespace Token

/-- The words after which an operand follows. -/
def operandWords : List String :=
  ["return", "typeof", "case", "in", "of", "delete", "void", "throw", "new"]

/-- A regular expression may stand after `previous`: that is no token that can end an operand. -/
def regexAllowed (previous : Option Token) : Bool :=
  match previous with
  | none => true
  | some t =>
    match t.kind with
    | .identifier => operandWords.contains t.text
    | .number | .string | .template | .regex | .closeParen | .closeBracket => false
    | _ => true

/-- The tokens of a text that begins at `offset`, of which the first `skip` characters belong to a
lexeme that has been read already. -/
def scanFrom (previous : Option Token) (offset : Nat) :
    (skip : Nat) → List Char → Except (SyntaxFault × Nat) (List Token)
  | _, [] => .ok []
  | skip + 1, c :: cs => scanFrom previous (offset + c.utf8Size) skip cs
  | 0, c :: cs =>
    match Lexeme.read (regexAllowed previous) c cs with
    | .blank text => scanFrom previous (offset + c.utf8Size) (text.length - 1) cs
    | .token kind text =>
      let token : Token := ⟨kind, String.ofList text, offset⟩
      match scanFrom (some token) (offset + c.utf8Size) (text.length - 1) cs with
      | .ok tokens => .ok (token :: tokens)
      | .error e => .error e
    | .broken fault => .error (fault, offset)

/-- The tokens of a source, without blanks and comments. -/
def scan (text : List Char) : Except SyntaxError (List Token) :=
  match scanFrom none 0 0 text with
  | .ok tokens => .ok tokens
  | .error (fault, offset) => .error (SyntaxError.atOffset text offset fault)

end Token
end AliasCheck
