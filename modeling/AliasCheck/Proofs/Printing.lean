import AliasCheck.Text.Blanking
import AliasCheck.Text.Parts
import AliasCheck.Token.Scan
import AliasCheck.TypeTerm.Grammar

/-!
# Writing type terms

A type term is written as a list of pieces, each of which is a token or a space. Parentheses stand
where the term inside binds weaker than its place needs, and nowhere else; the strength of a term is
a number from 0 for unions and functions to 3 for terms that need no parentheses anywhere. Keys of
members are written in quotes with escapes, and parameters without names. An array type may be
written in two ways, with angle brackets or as its element type with brackets behind it; which one
is taken may depend on the place in the term, which is the path to it from the root.

Not every term can be written: names have to consist of identifiers, literals have to carry their
texts, and there is no way to write a union of fewer than two types. `TypeTerm.isPrintable` says
what is needed.
-/

namespace AliasCheck

/-! ## Pieces -/

/-- A piece of a text that is put together. -/
inductive Piece where
  | token (kind : Token.Kind) (text : String)
  /-- One space. -/
  | space
  deriving DecidableEq, Repr

namespace Piece

/-- The text of a piece. -/
def text : Piece → List Char
  | token _ text => text.toList
  | space => [' ']

/-- A token of a kind that has only one text. -/
def mark (kind : Token.Kind) : Piece := token kind kind.spelling

/-- The text that pieces amount to. -/
def render (ps : List Piece) : List Char := ps.flatMap text

/-- The segments of a name after the first, each behind a point. -/
def ofSegments (segments : List (List Char)) : List Piece :=
  segments.flatMap fun segment => [mark .dot, token .identifier (String.ofList segment)]

/-- A name, which is identifiers with points between them. -/
def ofName (name : String) : List Piece :=
  match splitAt '.' name.toList with
  | [] => []
  | first :: more => token .identifier (String.ofList first) :: ofSegments more

/-- A number with its sign. -/
def ofNumeral (raw : String) : List Piece :=
  match raw.toList with
  | '-' :: digits => [mark .minus, token .number (String.ofList digits)]
  | _ => [token .number raw]

/-- A character as it stands between the quotes. -/
def escape : Char → List Char
  | '"' => ['\\', '"']
  | '\\' => ['\\', '\\']
  | '\n' => ['\\', 'n']
  | '\r' => ['\\', 'r']
  | '\t' => ['\\', 't']
  | c => [c]

/-- A key in quotes. -/
def quoteKey (key : String) : String :=
  String.ofList ('"' :: (key.toList.flatMap escape ++ ['"']))

/-- The bars inside the braces of an exact object type. -/
def bar (exact : Bool) : List Piece := if exact then [mark .pipe] else []

end Piece

/-- The word for a type that has one. -/
def Keyword.word : Keyword → String
  | string => "string"
  | number => "number"
  | boolean => "boolean"
  | any => "any"
  | mixed => "mixed"
  | void => "void"
  | null => "null"

/-! ## Terms -/

namespace TypeTerm

/-- How strongly a term binds: unions and functions least, then intersections, then terms behind a
question mark. -/
def strength : TypeTerm → Nat
  | union _ | function .. => 0
  | intersection _ => 1
  | nullable _ => 2
  | _ => 3

/-- Puts parentheses around the pieces of a term that binds weaker than its place needs. -/
def enclose (need : Nat) (t : TypeTerm) (ps : List Piece) : List Piece :=
  if t.strength < need then Piece.mark .openParen :: (ps ++ [Piece.mark .closeParen]) else ps

end TypeTerm

open Piece TypeTerm

mutual

/-- The pieces of the term at the end of a path. `short` says of each path whether an array type
there is written with brackets behind its element type. -/
def TypeTerm.pieces (short : List Nat → Bool) (path : List Nat) : TypeTerm → List Piece
  | .object members exact =>
    mark .openBrace :: (bar exact ++ ((Member.listPieces short path 0 members).drop 1
      ++ (bar exact ++ [mark .closeBrace])))
  | .named name => ofName name
  | .applied name args =>
    if short path ∧ name = "Array" ∧ args.length = 1 then
      (TypeTerm.listPieces short path .comma 3 0 args).drop 1
        ++ [mark .openBracket, mark .closeBracket]
    else
      ofName name ++ mark .openAngle :: ((TypeTerm.listPieces short path .comma 0 0 args).drop 1
        ++ [mark .closeAngle])
  | .nullable inner => mark .question :: enclose 2 inner (inner.pieces short (0 :: path))
  | .stringLiteral _ raw => [token .string raw]
  | .numberLiteral raw => ofNumeral raw
  | .booleanLiteral value => [token .identifier (if value then "true" else "false")]
  | .keyword word => [token .identifier word.word]
  | .union members => (TypeTerm.listPieces short path .pipe 1 0 members).drop 1
  | .intersection members => (TypeTerm.listPieces short path .ampersand 2 0 members).drop 1
  | .tuple items =>
    mark .openBracket :: ((TypeTerm.listPieces short path .comma 0 0 items).drop 1
      ++ [mark .closeBracket])
  | .function params returns =>
    mark .openParen :: ((TypeTerm.listPieces short path .comma 0 1 params).drop 1
      ++ mark .closeParen :: mark .arrow :: returns.pieces short (0 :: path))
  | .typeOf name => token .identifier "typeof" :: space :: ofName name
  | .existential => [mark .star]
  termination_by structural t => t

/-- The pieces of terms, the first of which has the number `i`, with a separator in front of each
and parentheses around those that bind weaker than needed. -/
def TypeTerm.listPieces (short : List Nat → Bool) (path : List Nat) (separator : Token.Kind)
    (need : Nat) : (i : Nat) → List TypeTerm → List Piece
  | _, [] => []
  | i, t :: ts =>
    mark separator :: (enclose need t (t.pieces short (i :: path))
      ++ TypeTerm.listPieces short path separator need (i + 1) ts)
  termination_by structural _ ts => ts

/-- The pieces of a member. -/
def Member.pieces (short : List Nat → Bool) (path : List Nat) : Member → List Piece
  | ⟨key, value, optional⟩ =>
    token .string (quoteKey key) :: ((if optional then [mark .question] else [])
      ++ mark .colon :: value.pieces short path)
  termination_by structural m => m

/-- The pieces of members, the first of which has the number `i`, with a comma in front of each. -/
def Member.listPieces (short : List Nat → Bool) (path : List Nat) :
    (i : Nat) → List Member → List Piece
  | _, [] => []
  | i, m :: ms =>
    mark .comma :: (m.pieces short (i :: path) ++ Member.listPieces short path (i + 1) ms)
  termination_by structural _ ms => ms

end

/-- The text of a term. -/
def TypeTerm.print (short : List Nat → Bool) (t : TypeTerm) : String :=
  String.ofList (render (t.pieces short []))

/-! ## What can be written -/

/-- The text is a token of this kind. -/
def Token.isText (kind : Token.Kind) (text : String) : Bool :=
  match text.toList with
  | c :: cs => Lexeme.read true c cs == .token kind (c :: cs)
  | [] => false

/-- The mark of library declarations stands somewhere in a text. -/
def Blanking.hasMark : List Char → Bool
  | [] => false
  | c :: cs => startsWithMark (c :: cs) || hasMark cs

namespace Piece

/-- The words that cannot begin a name of a type. -/
def reserved : List String :=
  ["typeof", "string", "number", "boolean", "any", "mixed", "void", "null", "true", "false"]

/-- The name consists of identifiers with points between them. -/
def isName (name : String) : Bool :=
  (splitAt '.' name.toList).all fun segment => Token.isText .identifier (String.ofList segment)

/-- The name can stand for a type. -/
def isTypeName (name : String) : Bool :=
  isName name && !((splitAt '.' name.toList).head?.any fun segment =>
    reserved.contains (String.ofList segment))

/-- The text is that of a number, perhaps with a minus sign in front. -/
def isNumeral (raw : String) : Bool :=
  match raw.toList with
  | '-' :: digits => Token.isText .number (String.ofList digits)
  | _ => Token.isText .number raw

end Piece

mutual

/-- The term can be written. -/
def TypeTerm.isPrintable : TypeTerm → Bool
  | .object members _ => Member.arePrintable members
  | .named name => isTypeName name
  | .applied name args => isTypeName name && TypeTerm.arePrintable args
  | .nullable inner => inner.isPrintable
  | .stringLiteral value raw =>
    Token.isText .string raw && value == StringLiteral.unquote raw
      && !Blanking.hasMark raw.toList
  | .numberLiteral raw => isNumeral raw
  | .union members => decide (2 ≤ members.length) && TypeTerm.arePrintable members
  | .intersection members => decide (2 ≤ members.length) && TypeTerm.arePrintable members
  | .tuple items => TypeTerm.arePrintable items
  | .function params returns => TypeTerm.arePrintable params && returns.isPrintable
  | .typeOf name => isName name
  | .booleanLiteral _ | .keyword _ | .existential => true
  termination_by structural t => t

/-- All of the terms can be written. -/
def TypeTerm.arePrintable : List TypeTerm → Bool
  | [] => true
  | t :: ts => t.isPrintable && TypeTerm.arePrintable ts
  termination_by structural ts => ts

/-- The member can be written. -/
def Member.isPrintable : Member → Bool
  | ⟨key, value, _⟩ => !Blanking.hasMark key.toList && value.isPrintable
  termination_by structural m => m

/-- All of the members can be written. -/
def Member.arePrintable : List Member → Bool
  | [] => true
  | m :: ms => m.isPrintable && Member.arePrintable ms
  termination_by structural ms => ms

end

end AliasCheck
