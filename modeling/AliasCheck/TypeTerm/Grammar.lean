import AliasCheck.SyntaxError
import AliasCheck.Text.StringLiteral
import AliasCheck.TypeTerm

/-!
# The grammar of type terms

A reader takes the tokens that are left and returns what it read with the tokens after it, or says
what it needed at which token. The readers for the single forms take the reader for a whole term as
an argument, so each of them is an ordinary definition, and the recursion of the grammar stands in
one place, `Grammar.term`.

That recursion and the loops over lists of items are bounded by a number that is never smaller than
the number of tokens left. When it reaches zero there is no token, and what a reader then answers is
what it has to answer at the end of the source.
-/

namespace AliasCheck

/-- A token, or the end of the source, at which a reader needs something else. -/
structure Unexpected where
  /-- What is needed. -/
  expected : Expected
  /-- The token that stands there, if any is left. -/
  found : Option Token
  deriving DecidableEq, Repr

/-- Reads something from the beginning of a list of tokens. -/
abbrev Reader (α : Type) := List Token → Except Unexpected (α × List Token)

namespace Grammar

variable {α : Type}

/-! ## Single tokens -/

/-- There is something else than `expected` at the beginning of `ts`. -/
def unexpected (expected : Expected) (ts : List Token) : Except Unexpected α :=
  .error ⟨expected, ts.head?⟩

/-- The next token has this kind. -/
def startsWith (kind : Token.Kind) (ts : List Token) : Bool :=
  match ts with
  | t :: _ => t.kind == kind
  | [] => false

/-- The tokens after one of this kind, if that is the next one. -/
def eat? (kind : Token.Kind) (ts : List Token) : Option (List Token) :=
  if startsWith kind ts then some ts.tail else none

/-- The tokens after one of this kind if that is the next one, else all of them. -/
def skip (kind : Token.Kind) (ts : List Token) : List Token := (eat? kind ts).getD ts

/-- Requires a token of a kind that has a fixed spelling. -/
def expect (kind : Token.Kind) (ts : List Token) : Except Unexpected (List Token) :=
  match eat? kind ts with
  | some ts => .ok ts
  | none => unexpected (.token kind) ts

/-- Reads an identifier. -/
def identifier : Reader String
  | t :: ts => if t.kind = .identifier then .ok (t.text, ts) else unexpected .identifier (t :: ts)
  | [] => unexpected .identifier []

/-! ## Lists -/

/-- Reads items separated by commas up to a token of kind `close`, which may follow a comma. -/
def itemsUntil (close : Token.Kind) (item : Reader α) : Nat → Reader (List α)
  | 0, ts => do
    let (x, ts) ← item ts
    .ok ([x], ts)
  | bound + 1, ts =>
    match eat? close ts with
    | some ts => .ok ([], ts)
    | none => do
      let (x, ts) ← item ts
      match eat? .comma ts with
      | some ts => do
        let (xs, ts) ← itemsUntil close item bound ts
        .ok (x :: xs, ts)
      | none => do
        let ts ← expect close ts
        .ok ([x], ts)

/-- Reads further items, each after a separator that `next?` recognises. -/
def separated (next? : List Token → Option (List Token)) (item : Reader α) :
    Nat → Reader (List α)
  | 0, ts => .ok ([], ts)
  | bound + 1, ts =>
    match next? ts with
    | none => .ok ([], ts)
    | some ts => do
      let (x, ts) ← item ts
      let (xs, ts) ← separated next? item bound ts
      .ok (x :: xs, ts)

/-! ## Names -/

/-- Reads the segments of a name after the first, each behind a point. -/
def segments (name : String) : Reader String
  | d :: t :: ts =>
    if d.kind ≠ .dot then .ok (name, d :: t :: ts)
    else if t.kind = .identifier then segments (name ++ "." ++ t.text) ts
    else unexpected .identifier (t :: ts)
  | [d] => if d.kind = .dot then unexpected .identifier [] else .ok (name, [d])
  | [] => .ok (name, [])

/-- Reads identifiers joined by points. -/
def qualifiedName : Reader String := fun ts => do
  let (name, ts) ← identifier ts
  segments name ts

/-- The term that a word stands for on its own. -/
def word? : String → Option TypeTerm
  | "string" => some (.keyword .string)
  | "number" => some (.keyword .number)
  | "boolean" => some (.keyword .boolean)
  | "any" => some (.keyword .any)
  | "mixed" => some (.keyword .mixed)
  | "void" => some (.keyword .void)
  | "null" => some (.keyword .null)
  | "true" => some (.booleanLiteral true)
  | "false" => some (.booleanLiteral false)
  | _ => none

/-! ## Forms of terms -/

section Forms

variable (term : Reader TypeTerm) (bound : Nat)

/-- Reads a term if a token of this kind comes next, which it skips. -/
def termAfter (kind : Token.Kind) (ts : List Token) : Except Unexpected (List Token) :=
  match eat? kind ts with
  | some ts => do
    let (_, ts) ← term ts
    .ok ts
  | none => .ok ts

/-- Skips a variance sign. -/
def skipVariance (ts : List Token) : List Token :=
  match eat? .plus ts with
  | some ts => ts
  | none => skip .minus ts

/-- Reads a type parameter: a name, perhaps with a bound and a default, which are dropped. -/
def typeParam : Reader String := fun ts => do
  let (name, ts) ← identifier (skipVariance ts)
  let ts ← termAfter term .colon ts
  let ts ← termAfter term .equals ts
  .ok (name, ts)

/-- Reads type parameters between angle brackets. -/
def typeParams : Reader (List String) := fun ts => do
  let ts ← expect .openAngle ts
  itemsUntil .closeAngle (typeParam term) bound ts

/-- Reads type parameters if an angle bracket comes next. -/
def optionalTypeParams : Reader (List String) := fun ts =>
  if startsWith .openAngle ts then typeParams term bound ts else .ok ([], ts)

/-- The tokens after the name of a parameter and its colon, if the parameter has a name. -/
def skipParamName : List Token → List Token
  | t :: c :: ts =>
    if t.kind = .identifier ∧ c.kind = .colon then ts
    else if t.kind = .identifier ∧ c.kind = .question ∧ startsWith .colon ts then ts.tail
    else t :: c :: ts
  | ts => ts

/-- Reads a parameter of a function, which may have a name and may stand for the rest. -/
def param : Reader TypeTerm := fun ts => term (skipParamName (skip .ellipsis ts))

/-- Reads a function whose result stands after a token of kind `separator`. -/
def functionWith (separator : Token.Kind) : Reader TypeTerm := fun ts => do
  let (_, ts) ← optionalTypeParams term bound ts
  let ts ← expect .openParen ts
  let (params, ts) ← itemsUntil .closeParen (param term) bound ts
  let ts ← expect separator ts
  let (returns, ts) ← term ts
  .ok (.function params returns, ts)

/-- Reads a function type. -/
def function : Reader TypeTerm := functionWith term bound .arrow

/-- Reads what follows the key of a method. -/
def method : Reader TypeTerm := functionWith term bound .colon

/-- The parenthesised group that begins here, `depth` brackets having been opened before, is
followed by an arrow. -/
def arrowAfterGroup : (depth : Nat) → List Token → Bool
  | _, [] => false
  | depth, t :: ts =>
    match t.kind with
    | .openParen | .openBracket | .openBrace => arrowAfterGroup (depth + 1) ts
    | .closeParen | .closeBracket | .closeBrace =>
      if depth ≤ 1 then startsWith .arrow ts else arrowAfterGroup (depth - 1) ts
    | _ => arrowAfterGroup depth ts

/-- Reads a term in parentheses, or a function whose parameters stand in them. -/
def parenthesised : Reader TypeTerm := fun ts =>
  if arrowAfterGroup 0 ts then function term bound ts
  else do
    let ts ← expect .openParen ts
    let (inner, ts) ← term ts
    let ts ← expect .closeParen ts
    .ok (inner, ts)

/-- Reads a tuple. -/
def tuple : Reader TypeTerm := fun ts => do
  let ts ← expect .openBracket ts
  let (items, ts) ← itemsUntil .closeBracket term bound ts
  .ok (.tuple items, ts)

/-- Reads a word that is a term, a name with or without arguments, or the type of a variable. -/
def name : Reader TypeTerm := fun ts =>
  match ts with
  | t :: rest =>
    match word? t.text with
    | some word => .ok (word, rest)
    | none =>
      if t.text = "typeof" then do
        let (variableName, ts) ← qualifiedName rest
        .ok (.typeOf variableName, ts)
      else do
        let (id, ts) ← qualifiedName ts
        match eat? .openAngle ts with
        | none => .ok (.named id, ts)
        | some ts => do
          let (args, ts) ← itemsUntil .closeAngle term bound ts
          .ok (.applied id args, ts)
  | [] => unexpected .typeTerm []

/-! ## Object types -/

/-- The tokens after the name of an indexer's key and its colon, if the key has a name. -/
def skipIndexName : List Token → List Token
  | t :: c :: ts => if t.kind = .identifier ∧ c.kind = .colon then ts else t :: c :: ts
  | ts => ts

/-- Reads the part of an indexer after its bracket. -/
def indexer (ts : List Token) : Except Unexpected (List Token) := do
  let (_, ts) ← term (skipIndexName ts)
  let ts ← expect .closeBracket ts
  let ts ← expect .colon ts
  let (_, ts) ← term ts
  .ok ts

/-- The key that a token stands for. -/
def key? (t : Token) : Option String :=
  match t.kind with
  | .identifier | .number => some t.text
  | .string => some (StringLiteral.unquote t.text)
  | _ => none

/-- Reads a member that has a key. -/
def keyedMember : Reader Member := fun ts =>
  match ts with
  | [] => unexpected .propertyKey []
  | t :: rest =>
    match key? t with
    | none => unexpected .propertyKey ts
    | some key =>
      if startsWith .openParen rest || startsWith .openAngle rest then do
        let (value, ts) ← method term bound rest
        .ok (⟨key, value, false⟩, ts)
      else do
        let ts ← expect .colon (skip .question rest)
        let (value, ts) ← term ts
        .ok (⟨key, value, startsWith .question rest⟩, ts)

/-- A spread ends here without naming a type. -/
def spreadEnds (ts : List Token) : Bool :=
  match ts with
  | t :: _ => [.semicolon, .comma, .closeBrace, .pipe].contains t.kind
  | [] => false

/-- Reads one member of an object type. Spreads, indexers and call properties are read and dropped:
they have no key. -/
def member : Reader (Option Member) := fun ts =>
  match ts with
  | [] => unexpected .propertyKey []
  | t :: rest =>
    match t.kind with
    | .ellipsis =>
      if spreadEnds rest then .ok (none, rest)
      else do
        let (_, ts) ← term rest
        .ok (none, ts)
    | .openBracket => do
      let ts ← indexer term rest
      .ok (none, ts)
    | .openParen | .openAngle => do
      let (_, ts) ← method term bound ts
      .ok (none, ts)
    | _ => do
      let (m, ts) ← keyedMember term bound (skipVariance ts)
      .ok (some m, ts)

/-- The tokens after the end of an object type, if it ends here. -/
def objectEnd? (exact : Bool) (ts : List Token) : Option (List Token) :=
  if exact then (eat? .pipe ts).bind (eat? .closeBrace) else eat? .closeBrace ts

/-- The tokens after a separator of members, none being needed before the end of the type. -/
def memberEnd (exact : Bool) (ts : List Token) : Except Unexpected (List Token) :=
  match eat? .semicolon ts, eat? .comma ts, objectEnd? exact ts with
  | some ts, _, _ => .ok ts
  | none, some ts, _ => .ok ts
  | none, none, some _ => .ok ts
  | none, none, none => unexpected .memberEnd ts

/-- Reads the members of an object type and its end. -/
def members (exact : Bool) : Nat → Reader (List Member)
  | 0, ts => unexpected (.token .closeBrace) ts
  | bound + 1, ts =>
    match objectEnd? exact ts with
    | some ts => .ok ([], ts)
    | none =>
      if ts.isEmpty then unexpected (.token .closeBrace) ts
      else do
        let (m, ts) ← member term bound ts
        let ts ← memberEnd exact ts
        let (ms, ts) ← members exact bound ts
        .ok (m.toList ++ ms, ts)

/-- Reads an object type. -/
def object : Reader TypeTerm := fun ts => do
  let ts ← expect .openBrace ts
  let exact := startsWith .pipe ts
  let (ms, ts) ← members term exact bound (skip .pipe ts)
  .ok (.object ms exact, ts)

/-! ## Terms by strength of binding -/

/-- Reads a term that no operator joins. -/
def primary : Reader TypeTerm := fun ts =>
  match ts with
  | [] => unexpected .typeTerm []
  | t :: rest =>
    match t.kind with
    | .openBrace => object term bound ts
    | .openBracket => tuple term bound ts
    | .openParen => parenthesised term bound ts
    | .openAngle => function term bound ts
    | .string => .ok (.stringLiteral (StringLiteral.unquote t.text) t.text, rest)
    | .number => .ok (.numberLiteral t.text, rest)
    | .minus =>
      match rest with
      | n :: rest' =>
        if n.kind = .number then .ok (.numberLiteral ("-" ++ n.text), rest')
        else unexpected .typeTerm ts
      | [] => unexpected .typeTerm ts
    | .identifier => name term bound ts
    | .star => .ok (.existential, rest)
    | _ => unexpected .typeTerm ts

/-- Applies the brackets that follow a term, each pair of which makes an array type of it. -/
def arrays (t : TypeTerm) : List Token → TypeTerm × List Token
  | o :: c :: ts =>
    if o.kind = .openBracket ∧ c.kind = .closeBracket then arrays (.applied "Array" [t]) ts
    else (t, o :: c :: ts)
  | ts => (t, ts)

/-- Reads a term with the array brackets behind it. -/
def suffixed : Reader TypeTerm := fun ts => do
  let (t, ts) ← primary term bound ts
  .ok (arrays t ts)

/-- Reads a term with the question marks in front of it. -/
def nullable : Reader TypeTerm
  | t :: ts =>
    if t.kind = .question then do
      let (inner, ts) ← nullable ts
      .ok (.nullable inner, ts)
    else suffixed term bound (t :: ts)
  | [] => suffixed term bound []

/-- Reads an intersection, or its only part. -/
def intersection : Reader TypeTerm := fun ts => do
  let (first, ts) ← nullable term bound (skip .ampersand ts)
  let (more, ts) ← separated (eat? .ampersand) (nullable term bound) bound ts
  .ok (if more.isEmpty then first else .intersection (first :: more), ts)

/-- The tokens after a bar that separates parts of a union; one that closes an exact object type
does not. -/
def unionBar? (ts : List Token) : Option (List Token) :=
  (eat? .pipe ts).filter fun ts => !startsWith .closeBrace ts

/-- Reads a union, or its only part. -/
def union : Reader TypeTerm := fun ts => do
  let (first, ts) ← intersection term bound (skip .pipe ts)
  let (more, ts) ← separated unionBar? (intersection term bound) bound ts
  .ok (if more.isEmpty then first else .union (first :: more), ts)

end Forms

/-- Reads a term from a list of at most `bound` tokens. -/
def term : (bound : Nat) → Reader TypeTerm
  | 0, ts => unexpected .typeTerm ts
  | bound + 1, ts => union (term bound) bound ts

end Grammar

end AliasCheck
