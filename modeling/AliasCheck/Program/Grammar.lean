import AliasCheck.Program
import AliasCheck.Text.Blanking
import AliasCheck.Token.Scan
import AliasCheck.TypeTerm.Grammar

/-!
# The grammar of programs

Alias declarations are read strictly. Other statements are skipped by counting brackets, so the
code around the declarations need not be understood: a statement ends with a semicolon or a closing
brace outside all brackets, or in front of the next statement that can be told by its first words.
-/

namespace AliasCheck
namespace Grammar

/-- An alias declaration begins here: `type Name =` or `type Name<`. -/
def startsAlias : List Token → Bool
  | t :: n :: e :: _ =>
    t.isWord "type" && n.kind == .identifier && (e.kind == .equals || e.kind == .openAngle)
  | _ => false

/-- A statement begins here even if the one before it has not been closed. -/
def startsStatement (ts : List Token) : Bool :=
  match ts with
  | t :: _ => startsAlias ts || t.isWord "export" || t.isWord "import"
  | [] => false

/-- The tokens after the statement that begins here. `depth` brackets are open, and `first` says
that none of the statement's tokens has been passed yet. -/
def skipStatement : (first : Bool) → (depth : Nat) → List Token → List Token
  | _, _, [] => []
  | first, depth, t :: ts =>
    if !first && depth == 0 && startsStatement (t :: ts) then t :: ts
    else
      match t.kind with
      | .openBrace | .openParen | .openBracket => skipStatement false (depth + 1) ts
      | .closeParen | .closeBracket => skipStatement false (depth - 1) ts
      | .closeBrace => if depth ≤ 1 then ts else skipStatement false (depth - 1) ts
      | .semicolon => if depth = 0 then ts else skipStatement false depth ts
      | _ => skipStatement false depth ts

/-- Reads an alias declaration behind its first word. -/
def declaration (bound : Nat) : Reader Alias := fun ts => do
  let (name, ts) ← identifier ts
  let (params, ts) ← optionalTypeParams (term bound) bound ts
  let ts ← expect .equals ts
  let (body, ts) ← term bound ts
  .ok (⟨name, params, body⟩, skip .semicolon ts)

/-- Reads the statement that begins here. Declarations of types whose definition is hidden or
stands elsewhere are dropped like other code. -/
def statement (bound : Nat) : Reader Statement
  | [] => .ok (.other, [])
  | t :: ts =>
    if t.isWord "export" && !ts.isEmpty then do
      let (inner, ts) ← statement bound ts
      .ok (.exported inner, ts)
    else if t.isWord "opaque" || t.isWord "declare" then .ok (.other, skipStatement true 0 ts)
    else if startsAlias (t :: ts) then do
      let (a, ts) ← declaration bound ts
      .ok (.declares a, ts)
    else .ok (.other, skipStatement true 0 (t :: ts))

/-- Reads the statements of a source of at most `bound` tokens, skipping empty ones. -/
def program : (bound : Nat) → List Token → Except Unexpected Program
  | 0, _ => .ok []
  | bound + 1, ts =>
    match ts with
    | [] => .ok []
    | t :: rest =>
      if t.kind = .semicolon then program bound rest
      else do
        let (first, ts) ← statement (bound + 1) ts
        let more ← program bound ts
        .ok (first :: more)

end Grammar

namespace Program

/-- Reads all of a list of tokens. -/
def ofTokens (tokens : List Token) : Except Unexpected Program :=
  Grammar.program tokens.length tokens

/-- The error in `text` that a reader's demand amounts to. -/
def errorIn (text : List Char) (u : Unexpected) : SyntaxError :=
  match u.found with
  | some t => SyntaxError.atOffset text t.start (.unexpected u.expected (some t.text))
  | none => SyntaxError.atOffset text (byteLength text) (.unexpected u.expected none)

/-- Reads a source. -/
def parse (source : String) : Except SyntaxError Program := do
  let text := blankDeclarations source.toList
  let tokens ← Token.scan text
  (ofTokens tokens).mapError (errorIn text)

end Program

end AliasCheck
