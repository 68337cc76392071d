import AliasCheck.Text.Unicode.Ranges
import AliasCheck.Text.Unicode.Fold
import AliasCheck.Text.Unicode.Word

/-!
# Patterns for text

A pattern describes a set of texts by sets of characters, sequence, choice and repetition, together
with assertions about the place between two characters. A text matches if some part of it is
described by the pattern. Only this question is asked, so the order in which a repetition tries its
counts plays no part: a pattern is run on all places of the text at once and yields all places at
which a match that began at one of them can end.
-/

namespace AliasCheck

/-- Sets of characters. -/
inductive CharSet where
  /-- The code points from `low` to `high`. -/
  | range (low high : Nat)
  /-- All that differ only in case from a code point from `low` to `high`. -/
  | caseless (low high : Nat)
  | digit | space | word
  | complement (set : CharSet)
  | union (a b : CharSet)
  | inter (a b : CharSet)
  deriving Repr

namespace CharSet

/-- The set without members. -/
def empty : CharSet := range 1 0

/-- The character is a member of the set. -/
def contains (c : Char) : CharSet → Bool
  | range low high => low ≤ c.toNat && c.toNat ≤ high
  | caseless low high =>
    (c.toNat :: Unicode.caseVariants c.toNat).any fun n => low ≤ n && n ≤ high
  | digit => Unicode.isDigit c
  | space => Unicode.isSpace c
  | word => Unicode.isWord c
  | complement set => !contains c set
  | union a b => contains c a || contains c b
  | inter a b => contains c a && contains c b

/-- The members of `a` that are not in `b`. -/
def diff (a b : CharSet) : CharSet := inter a (complement b)

/-- The members of exactly one of the sets. -/
def symmDiff (a b : CharSet) : CharSet := union (diff a b) (diff b a)

end CharSet

/-- Conditions on a place between two characters. -/
inductive Assertion where
  | textStart | textEnd
  /-- At the start of the text or after a line feed. -/
  | lineStart
  /-- At the end of the text or before a line feed. -/
  | lineEnd
  | wordBoundary | noWordBoundary
  | wordStart | wordEnd
  /-- No word character stands before. -/
  | wordStartHalf
  /-- No word character stands after. -/
  | wordEndHalf
  deriving DecidableEq, Repr

/-- The condition holds between `before` and `after`, either of which may be the edge of the
text. -/
def Assertion.holds (before after : Option Char) : Assertion → Bool
  | textStart => before.isNone
  | textEnd => after.isNone
  | lineStart => before.isNone || before == some '\n'
  | lineEnd => after.isNone || after == some '\n'
  | wordBoundary => before.any Unicode.isWord != after.any Unicode.isWord
  | noWordBoundary => before.any Unicode.isWord == after.any Unicode.isWord
  | wordStart => !before.any Unicode.isWord && after.any Unicode.isWord
  | wordEnd => before.any Unicode.isWord && !after.any Unicode.isWord
  | wordStartHalf => !before.any Unicode.isWord
  | wordEndHalf => !after.any Unicode.isWord

/-- What a pattern is made of. -/
inductive PatternTerm where
  /-- Matches between any two characters. -/
  | empty
  /-- One character of a set. -/
  | set (set : CharSet)
  | assertion (condition : Assertion)
  | sequence (first second : PatternTerm)
  | choice (first second : PatternTerm)
  /-- At least `min` and, if that is given, at most `max` matches in a row. -/
  | repetition (term : PatternTerm) (min : Nat) (max : Option Nat)
  deriving Repr

namespace PatternTerm

/-! ## Matching -/

/-- The members of two ascending lists, in ascending order and once each. -/
def merge : List Nat → List Nat → List Nat
  | [], ys => ys
  | x :: xs, ys =>
    match ys.span (· < x) with
    | (smaller, rest) => smaller ++ x :: merge xs (if rest.head? = some x then rest.tail else rest)

/-- Applies `f` to `places` exactly `n` times. -/
def times (f : List Nat → List Nat) : Nat → List Nat → List Nat
  | 0, places => places
  | n + 1, places => if places.isEmpty then [] else times f n (f places)

/-- All places reached from `places` by applying `f` up to `n` times; `reached` are those known
before. -/
def upTo (f : List Nat → List Nat) : Nat → (reached places : List Nat) → List Nat
  | 0, reached, _ => reached
  | n + 1, reached, places =>
    let new := (f places).filter fun p => !reached.contains p
    if new.isEmpty then reached else upTo f n (merge reached new) new

/-- The places at which matches can end that begin at one of the given places. -/
def ends (text : Array Char) : PatternTerm → List Nat → List Nat
  | empty, places => places
  | set s, places => (places.filter fun i => text[i]?.any fun c => s.contains c).map (· + 1)
  | assertion condition, places =>
    places.filter fun i => condition.holds (if i = 0 then none else text[i - 1]?) text[i]?
  | sequence a b, places => ends text b (ends text a places)
  | choice a b, places => merge (ends text a places) (ends text b places)
  | repetition t min max, places =>
    let reached := times (ends text t) min places
    upTo (ends text t) (match max with | some m => m - min | none => text.size + 1) reached reached

/-- Some part of the text matches. -/
def matchesIn (t : PatternTerm) (text : String) : Bool :=
  let chars := text.toList.toArray
  !(ends chars t (List.range (chars.size + 1))).isEmpty

end PatternTerm

/-- A pattern with the text it was read from. -/
structure Pattern where
  /-- The pattern as written. -/
  source : String
  term : PatternTerm

end AliasCheck
