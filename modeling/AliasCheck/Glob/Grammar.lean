import AliasCheck.Glob
import AliasCheck.Text.Parts

/-!
# Reading globs

A glob is read twice: as a whole, and then name by name. The first reading finds most faults and
says where in the text they are. The second one comes across sets of characters that a slash cuts
apart.
-/

namespace AliasCheck
namespace Glob

/-- What can be wrong with a glob. -/
inductive Cause where
  /-- A bracket opens a set that is not closed. -/
  | openSet
  /-- There are more than two stars in a row. -/
  | tooManyStars
  /-- Two stars share a name with something else. -/
  | sharedStars
  deriving DecidableEq, Repr

/-- Something is wrong with a glob near a position, counted in characters. -/
structure Fault where
  cause : Cause
  position : Nat
  deriving DecidableEq, Repr

/-- The text of a cause. -/
def Cause.message : Cause → String
  | openSet => "invalid range pattern"
  | tooManyStars => "wildcards are either regular `*` or recursive `**`"
  | sharedStars => "recursive wildcards must form a single path component"

/-- The text of a fault. -/
def Fault.message (f : Fault) : String :=
  s!"Pattern syntax error near position {f.position}: {f.cause.message}"

/-- This makes a text a glob rather than a path. A brace does so although it has no meaning in a
glob. -/
def isMagic (c : Char) : Bool := c = '*' || c = '?' || c = '[' || c = '{'

/-- The ranges that the characters of a set stand for. -/
def ranges : List Char → List (Char × Char)
  | low :: '-' :: high :: cs => (low, high) :: ranges cs
  | c :: cs => (c, c) :: ranges cs
  | [] => []

/-- Reads a set behind its opening bracket: its mark, how many characters it takes, and the rest.
The first character belongs to the set also if it is a closing bracket. -/
def readSet (cs : List Char) : Option (Mark × Nat × List Char) :=
  let negated := cs.head? = some '!'
  match if negated then cs.drop 1 else cs with
  | [] => none
  | first :: more =>
    let inside := more.takeWhile (· ≠ ']')
    match more.dropWhile (· ≠ ']') with
    | [] => none
    | _ :: rest =>
      some (.among negated (ranges (first :: inside)),
        (if negated then 1 else 0) + inside.length + 2, rest)

/-- Reads the marks of a glob. The character before decides whether two stars begin a name. -/
def readMarks : (bound : Nat) → (position : Nat) → (before : Option Char) → List Char →
    Except Fault (List Mark)
  | 0, _, _, _ | _, _, _, [] => .ok []
  | bound + 1, position, before, c :: cs =>
    if c = '*' then
      let stars := 1 + (cs.takeWhile (· = '*')).length
      let rest := cs.dropWhile (· = '*')
      if stars = 1 then (readMarks bound (position + 1) (some c) cs).map (Mark.many :: ·)
      else if stars > 2 then .error ⟨.tooManyStars, position + 2⟩
      else if before.any (· ≠ '/') then .error ⟨.sharedStars, position - 1⟩
      else if rest.head?.any (· ≠ '/') then .error ⟨.sharedStars, position + 2⟩
      else (readMarks bound (position + 3) (some '/') (rest.drop 1)).map (Mark.names :: ·)
    else if c = '[' then
      match readSet cs with
      | none => .error ⟨.openSet, position⟩
      | some (mark, width, rest) =>
        (readMarks bound (position + 1 + width) (some ']') rest).map (mark :: ·)
    else
      (readMarks bound (position + 1) (some c) cs).map
        ((if c = '?' then Mark.one else Mark.char c) :: ·)

/-- The part that the text of one name stands for. -/
def readPart (text : List Char) : Except Fault Part := do
  let marks ← readMarks text.length 0 none text
  if marks = [.names] then return .directories
  else if marks = text.map Mark.char then return .name (String.ofList text)
  else return .mask marks

/-- Parts without repetitions of those that fit any number of directories. -/
def collapse : List Part → List Part
  | .directories :: .directories :: parts => collapse (.directories :: parts)
  | part :: parts => part :: collapse parts
  | [] => []

/-- The names in a text, also those without a character; a slash at the end ends the last one. -/
def namesIn (text : List Char) : List (List Char) :=
  match (splitAt '/' text).reverse with
  | [] :: others => others.reverse
  | parts => parts.reverse

/-- Reads a glob. -/
def parse (text : String) : Except Fault Glob := do
  let cs := text.toList
  let _ ← readMarks cs.length 0 none cs
  let absolute := cs.head? = some '/'
  let parts ← (namesIn (if absolute then cs.drop 1 else cs)).mapM readPart
  return { absolute, parts := collapse parts, closed := cs.getLast? = some '/' }

end Glob
end AliasCheck
