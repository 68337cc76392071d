import AliasCheck.Pattern
import AliasCheck.Text.StringLiteral

/-!
# The grammar of patterns

Patterns are written in the usual notation of regular expressions. All that matters of a pattern
that cannot be read is that it cannot. Flags hold from where they stand to the end of the group
around them, so they are part of what is passed from one step of reading to the next.
-/

namespace AliasCheck
namespace Pattern
namespace Grammar

/-- What the flags in force ask for. -/
structure Flags where
  /-- Letters match in either case. -/
  caseless : Bool
  /-- Lines have a start and an end of their own. -/
  multiLine : Bool
  /-- The point matches line feeds too. -/
  dotAll : Bool
  /-- Blanks and comments in the pattern are skipped. -/
  verbose : Bool
  deriving DecidableEq, Repr

/-- No flag is set. -/
def Flags.none : Flags := ⟨false, false, false, false⟩

/-- Where reading has got to. -/
structure State where
  /-- The text that is left. -/
  rest : List Char
  flags : Flags
  /-- The names of groups so far. -/
  names : List (List Char)
  deriving Repr

/-! ## Blanks and numbers -/

/-- What follows blanks and comments. A comment runs to the end of its line. -/
def skipBlanks (inComment : Bool) : List Char → List Char
  | [] => []
  | c :: cs =>
    if inComment then skipBlanks (c ≠ '\n') cs
    else if c = '#' then skipBlanks true cs
    else if Unicode.isSpace c then skipBlanks false cs
    else c :: cs

/-- The text that is left, without blanks where they have no meaning. -/
def trim (verbose : Bool) (cs : List Char) : List Char :=
  if verbose then skipBlanks false cs else cs

/-- Reads a decimal number of 32 bits with blanks around it; none if there are no digits, and
`some none` if it is too great. -/
def decimal (cs : List Char) : Option (Option Nat) × List Char :=
  let cs := cs.dropWhile Unicode.isSpace
  let digits := cs.takeWhile Char.isDigit
  let n := digits.foldl (fun n d => 10 * n + (d.toNat - '0'.toNat)) 0
  let rest := (cs.drop digits.length).dropWhile Unicode.isSpace
  (if digits = [] then none else some (if n < UInt32.size then some n else none), rest)

/-- Reads the counts of a repetition behind the brace: the least one, the greatest one if there is
one, and the closing brace. -/
def counts (verbose : Bool) (cs : List Char) : Option ((Nat × Option Nat) × List Char) :=
  match decimal cs with
  | (some (some min), '}' :: rest) => some ((min, some min), rest)
  | (some (some min), ',' :: rest) =>
    match trim verbose rest with
    | '}' :: rest => some ((min, none), rest)
    | rest =>
      match decimal rest with
      | (some (some max), '}' :: rest) => if min ≤ max then some ((min, some max), rest) else none
      | _ => none
  | _ => none

/-! ## Escapes -/

/-- What an escape stands for. -/
inductive Escape where
  | char (c : Char)
  | set (set : CharSet)
  | assertion (condition : Assertion)

/-- The character with a code point, if there is one. -/
def ofCode? (n : Nat) : Option Char :=
  if n < 0xd800 ∨ (0xdfff < n ∧ n < 0x110000) then some (Char.ofNat n) else none

/-- Reads the code point of an escape: `width` hexadecimal digits, or any number of them between
braces. -/
def hexEscape (width : Nat) (cs : List Char) : Option (Escape × List Char) :=
  match cs with
  | '{' :: cs =>
    let digits := cs.takeWhile (· ≠ '}')
    if digits = [] ∨ digits.length = cs.length then none
    else do
      let n ← StringLiteral.hexNumber 0 digits
      let c ← ofCode? n
      some (.char c, cs.drop (digits.length + 1))
  | _ =>
    if cs.length < width then none
    else do
      let n ← StringLiteral.hexNumber 0 (cs.take width)
      let c ← ofCode? n
      some (.char c, cs.drop width)

/-- The condition with a name, as it may stand between braces behind `\b`. -/
def namedBoundary? (name : List Char) : Option Assertion :=
  match String.ofList name with
  | "start" => some .wordStart
  | "end" => some .wordEnd
  | "start-half" => some .wordStartHalf
  | "end-half" => some .wordEndHalf
  | _ => none

/-- Reads what follows `\b`. Braces around a word name a special boundary; around anything else they
are a repetition. -/
def boundary (cs : List Char) : Option (Escape × List Char) :=
  match cs with
  | '{' :: c :: rest =>
    if c = '-' ∨ c.isAlpha then
      let name := (c :: rest).takeWhile fun d => d = '-' || d.isAlpha
      match (c :: rest).drop name.length with
      | '}' :: rest => (namedBoundary? name).map fun condition => (.assertion condition, rest)
      | _ => none
    else some (.assertion .wordBoundary, cs)
  | _ => some (.assertion .wordBoundary, cs)

/-- An escaped punctuation character or blank stands for itself, angle brackets excepted. -/
def escapable (c : Char) : Bool :=
  c.toNat < 0x80 && !c.isAlphanum && c ≠ '<' && c ≠ '>'

/-- Reads an escape behind its backslash. -/
def escape : List Char → Option (Escape × List Char)
  | [] => none
  | c :: cs =>
    if escapable c then some (.char c, cs)
    else
      match c with
      | 'x' => hexEscape 2 cs
      | 'u' => hexEscape 4 cs
      | 'U' => hexEscape 8 cs
      | 'd' => some (.set .digit, cs)
      | 's' => some (.set .space, cs)
      | 'w' => some (.set .word, cs)
      | 'D' => some (.set (.complement .digit), cs)
      | 'S' => some (.set (.complement .space), cs)
      | 'W' => some (.set (.complement .word), cs)
      | 'a' => some (.char '\x07', cs)
      | 'f' => some (.char '\x0c', cs)
      | 't' => some (.char '\t', cs)
      | 'n' => some (.char '\n', cs)
      | 'r' => some (.char '\r', cs)
      | 'v' => some (.char '\x0b', cs)
      | 'A' => some (.assertion .textStart, cs)
      | 'z' => some (.assertion .textEnd, cs)
      | 'b' => boundary cs
      | 'B' => some (.assertion .noWordBoundary, cs)
      | '<' => some (.assertion .wordStart, cs)
      | '>' => some (.assertion .wordEnd, cs)
      | _ => none

/-! ## Sets between brackets -/

/-- The code points from `low` to `high`, in either case if asked for. -/
def rangeSet (caseless : Bool) (low high : Nat) : CharSet :=
  if caseless then .caseless low high else .range low high

/-- The union of ranges. -/
def rangesSet (caseless : Bool) (ranges : List (Char × Char)) : CharSet :=
  ranges.foldl (fun s (a, b) => .union s (rangeSet caseless a.toNat b.toNat)) .empty

/-- The set of ASCII characters with a name, as it may stand between colons. -/
def asciiRanges? (name : List Char) : Option (List (Char × Char)) :=
  match String.ofList name with
  | "alnum" => some [('0', '9'), ('A', 'Z'), ('a', 'z')]
  | "alpha" => some [('A', 'Z'), ('a', 'z')]
  | "ascii" => some [('\x00', '\x7f')]
  | "blank" => some [('\t', '\t'), (' ', ' ')]
  | "cntrl" => some [('\x00', '\x1f'), ('\x7f', '\x7f')]
  | "digit" => some [('0', '9')]
  | "graph" => some [('!', '~')]
  | "lower" => some [('a', 'z')]
  | "print" => some [(' ', '~')]
  | "punct" => some [('!', '/'), (':', '@'), ('[', '\x60'), ('{', '~')]
  | "space" => some [('\t', '\r'), (' ', ' ')]
  | "upper" => some [('A', 'Z')]
  | "word" => some [('0', '9'), ('A', 'Z'), ('_', '_'), ('a', 'z')]
  | "xdigit" => some [('0', '9'), ('A', 'F'), ('a', 'f')]
  | _ => none

/-- Reads a named set behind its opening bracket, if one stands there. -/
def asciiSet? (caseless : Bool) (cs : List Char) : Option (CharSet × List Char) :=
  match cs with
  | ':' :: cs =>
    let (negated, cs) := match cs with
      | '^' :: cs => (true, cs)
      | _ => (false, cs)
    let name := cs.takeWhile Char.isAlpha
    match cs.drop name.length with
    | ':' :: ']' :: rest =>
      (asciiRanges? name).map fun ranges =>
        let set := rangesSet caseless ranges
        (if negated then .complement set else set, rest)
    | _ => none
  | _ => none

/-- How two sets between brackets are joined. -/
inductive Join where
  | inter | diff | symmDiff

/-- Joins the set read before with the one read last. -/
def join (left : Option (CharSet × Join)) (set : CharSet) : CharSet :=
  match left with
  | none => set
  | some (a, .inter) => .inter a set
  | some (a, .diff) => .diff a set
  | some (a, .symmDiff) => .symmDiff a set

/-- Reads one character, or an escape. -/
def setItem (cs : List Char) : Option (Escape × List Char) :=
  match cs with
  | [] => none
  | '\\' :: cs => escape cs
  | c :: cs => some (.char c, cs)

/-- Reads an item of a set, or a range of characters. -/
def setRange (f : Flags) (cs : List Char) : Option (CharSet × List Char) := do
  let (first, cs) ← setItem cs
  let cs := trim f.verbose cs
  let single : Option (CharSet × List Char) :=
    match first with
    | .char c => some (rangeSet f.caseless c.toNat c.toNat, cs)
    | .set s => some (s, cs)
    | .assertion _ => none
  match cs with
  | [] => none
  | '-' :: rest =>
    match trim f.verbose rest with
    | [] => none
    | ']' :: _ | '-' :: _ => single
    | rest =>
      match first, ← setItem rest with
      | .char low, (.char high, rest) =>
        if low ≤ high then some (rangeSet f.caseless low.toNat high.toNat, rest) else none
      | _, _ => none
  | _ => single

/-- Reads hyphens, which stand for themselves at the beginning of a set. -/
def hyphens (verbose : Bool) : List Char → List Char × List Char
  | [] => ([], [])
  | c :: cs =>
    if c = '-' then
      let (more, rest) := hyphens verbose cs
      (c :: more, rest)
    else if verbose ∧ Unicode.isSpace c then hyphens verbose cs
    else ([], c :: cs)

/-- Reads the items of a set up to its closing bracket. `nested` reads a set behind its opening
bracket. -/
def setItems (f : Flags) (nested : List Char → Option (CharSet × List Char)) :
    (bound : Nat) → (left : Option (CharSet × Join)) → (set : CharSet) → List Char →
      Option (CharSet × List Char)
  | 0, _, _, _ => none
  | bound + 1, left, set, cs =>
    match trim f.verbose cs with
    | [] => none
    | ']' :: cs => some (join left set, cs)
    | '&' :: '&' :: cs => setItems f nested bound (some (join left set, .inter)) .empty cs
    | '-' :: '-' :: cs => setItems f nested bound (some (join left set, .diff)) .empty cs
    | '~' :: '~' :: cs => setItems f nested bound (some (join left set, .symmDiff)) .empty cs
    | '[' :: cs => do
      let (s, cs) ← (asciiSet? f.caseless cs).or (nested cs)
      setItems f nested bound left (.union set s) cs
    | cs => do
      let (s, cs) ← setRange f cs
      setItems f nested bound left (.union set s) cs

/-- Reads a set behind its opening bracket. A closing bracket at the beginning stands for
itself. -/
def bracketSet (f : Flags) : (bound : Nat) → List Char → Option (CharSet × List Char)
  | 0, _ => none
  | bound + 1, cs =>
    let cs := trim f.verbose cs
    let (negated, cs) := match cs with
      | '^' :: cs => (true, trim f.verbose cs)
      | _ => (false, cs)
    let (literal, cs) := hyphens f.verbose cs
    let (literal, cs) := match literal, cs with
      | [], ']' :: cs => ([']'], cs)
      | _, _ => (literal, cs)
    let first := rangesSet f.caseless (literal.map fun c => (c, c))
    (setItems f (bracketSet f bound) bound none first cs).map fun (s, cs) =>
      (if negated then .complement s else s, cs)

/-! ## Groups and flags -/

/-- A flag and whether it is set or cleared. -/
abbrev FlagChange := Char × Bool

/-- Reads changes of flags up to the colon or parenthesis behind them; each flag may be named
once, and `negated` says that a minus sign has come. -/
def flagChanges (changes : List FlagChange) (negated afterMinus : Bool) :
    List Char → Option (List FlagChange × List Char)
  | [] => none
  | c :: cs =>
    if c = ':' ∨ c = ')' then if afterMinus then none else some (changes, c :: cs)
    else if c = '-' then if negated then none else flagChanges changes true true cs
    else if c ∉ ['i', 'm', 's', 'x', 'U', 'u', 'R'] ∨ changes.any (·.1 == c) then none
    else flagChanges ((c, !negated) :: changes) negated false cs

/-- The flags after a change. The flags that do not bear on whether a text matches are ignored. -/
def Flags.apply (f : Flags) (change : FlagChange) : Flags :=
  match change with
  | ('i', b) => { f with caseless := b }
  | ('m', b) => { f with multiLine := b }
  | ('s', b) => { f with dotAll := b }
  | ('x', b) => { f with verbose := b }
  | _ => f

/-- Reads the name of a group up to its closing bracket. -/
def groupName (cs : List Char) : Option (List Char × List Char) :=
  let name := cs.takeWhile (· ≠ '>')
  match name, cs.drop name.length with
  | first :: more, _ :: rest =>
    let starts := first = '_' || (Unicode.isWord first && !Unicode.isDigit first)
    let continues := more.all fun c =>
      c = '.' || c = '[' || c = ']' || Unicode.isWord c
    if starts && continues then some (name, rest) else none
  | _, _ => none

/-- What the text behind an opening parenthesis begins. -/
inductive Opening where
  /-- A group, read under the state's flags. -/
  | group (st : State)
  /-- A change of flags without a group. -/
  | flags (st : State)

/-- Reads what distinguishes a group, behind its opening parenthesis. -/
def opening (st : State) : Option Opening :=
  match trim st.flags.verbose st.rest with
  | '?' :: '=' :: _ | '?' :: '!' :: _ | '?' :: '<' :: '=' :: _ | '?' :: '<' :: '!' :: _ => none
  | '?' :: 'P' :: '<' :: cs | '?' :: '<' :: cs => do
    let (name, rest) ← groupName cs
    if st.names.contains name then none else some (.group ⟨rest, st.flags, name :: st.names⟩)
  | '?' :: cs => do
    let (changes, rest) ← flagChanges [] false false cs
    let flags := changes.foldl Flags.apply st.flags
    match rest with
    | ':' :: rest => some (.group ⟨rest, flags, st.names⟩)
    | _ :: rest => if cs.head? = some ')' then none else some (.flags ⟨rest, flags, st.names⟩)
    | [] => none
  | rest => some (.group ⟨rest, st.flags, st.names⟩)

/-! ## Terms -/

/-- The terms one after the other; the list has the last one first. -/
def sequenceOf (terms : List (Option PatternTerm)) : PatternTerm :=
  terms.foldl (fun t first =>
    match first, t with
    | none, t => t
    | some first, .empty => first
    | some first, t => .sequence first t) .empty

/-- The term that a single character stands for. -/
def characterTerm (f : Flags) (c : Char) : PatternTerm :=
  match c with
  | '.' => .set (if f.dotAll then .complement .empty else .complement (.range 10 10))
  | '^' => .assertion (if f.multiLine then .lineStart else .textStart)
  | '$' => .assertion (if f.multiLine then .lineEnd else .textEnd)
  | c => .set (rangeSet f.caseless c.toNat c.toNat)

/-- The term that an escape stands for. -/
def escapeTerm (f : Flags) : Escape → PatternTerm
  | .char c => .set (rangeSet f.caseless c.toNat c.toNat)
  | .set s => .set s
  | .assertion condition => .assertion condition

/-- The counts that an operator asks for, and what follows it. -/
def repetition? (verbose : Bool) (cs : List Char) :
    Option (Option ((Nat × Option Nat) × List Char)) :=
  match cs with
  | '?' :: cs => some (some ((0, some 1), cs))
  | '*' :: cs => some (some ((0, none), cs))
  | '+' :: cs => some (some ((1, none), cs))
  | '{' :: cs => some (counts verbose cs)
  | _ => none

/-- What follows a question mark that makes a repetition prefer fewer matches. -/
def skipLazy (cs : List Char) : List Char :=
  match cs with
  | '?' :: cs => cs
  | _ => cs

/-- Reads one term or a change of flags, which is no term. -/
def piece (group : State → Option (PatternTerm × State)) (bound : Nat) (st : State) :
    Option (Option PatternTerm × State) :=
  match st.rest with
  | [] => none
  | '(' :: cs =>
    (opening ⟨cs, st.flags, st.names⟩).bind fun
      | .flags after => some (none, after)
      | .group inner =>
        (group inner).bind fun (t, after) =>
          match after.rest with
          | ')' :: rest => some (some t, ⟨rest, st.flags, after.names⟩)
          | _ => none
  | '[' :: cs =>
    (bracketSet st.flags bound cs).map fun (s, rest) =>
      (some (.set s), ⟨rest, st.flags, st.names⟩)
  | '\\' :: cs =>
    (escape cs).map fun (e, rest) =>
      (some (escapeTerm st.flags e), ⟨rest, st.flags, st.names⟩)
  | c :: cs => some (some (characterTerm st.flags c), ⟨cs, st.flags, st.names⟩)

/-- Reads branches up to a closing parenthesis or the end. `branches` is the choice read so far and
`terms` the sequence read since, last one first. -/
def branches (group : State → Option (PatternTerm × State)) :
    (bound : Nat) → (before : Option PatternTerm) → (terms : List (Option PatternTerm)) → State →
      Option (PatternTerm × State)
  | 0, _, _, _ => none
  | bound + 1, before, terms, st =>
    let st : State := ⟨trim st.flags.verbose st.rest, st.flags, st.names⟩
    let chosen := match before with
      | none => sequenceOf terms
      | some t => .choice t (sequenceOf terms)
    match st.rest with
    | [] | ')' :: _ => some (chosen, st)
    | '|' :: cs => branches group bound (some chosen) [] ⟨cs, st.flags, st.names⟩
    | _ =>
      match repetition? st.flags.verbose st.rest, terms with
      | some (some ((min, max), rest)), some t :: terms =>
        branches group bound before (some (.repetition t min max) :: terms)
          ⟨skipLazy rest, st.flags, st.names⟩
      | some _, _ => none
      | none, _ =>
        (piece group bound st).bind fun (t, after) =>
          branches group bound before (t :: terms) after

/-- Reads a pattern, or the part of it that a group holds. -/
def pattern : (bound : Nat) → State → Option (PatternTerm × State)
  | 0, _ => none
  | bound + 1, st => branches (pattern bound) (bound + 1) none [] st

end Grammar

/-- Reads a pattern; none if it is malformed. -/
def parse? (source : String) : Option Pattern :=
  let text := source.toList
  match Grammar.pattern (text.length + 1) ⟨text, .none, []⟩ with
  | some (t, ⟨[], _, _⟩) => some ⟨source, t⟩
  | _ => none

end Pattern
end AliasCheck
