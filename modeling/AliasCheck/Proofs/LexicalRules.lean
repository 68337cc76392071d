import AliasCheck.Proofs.BrokenText
import Mathlib.Computability.Language

/-!
# The rules of the lexical grammar

`LexicalRule.language` gives the rules by which text is cut into lexemes as regular languages, with
no word about how a text is read. The parts of which lexemes are made are compared with them here:
each of these parts is in its language, and it is the longest beginning of the text that is. For
numbers this is not plain, because a fraction or an exponent that is not complete is given up, and
what has been read before it must still be as long as any other way to match the rule.
-/

namespace AliasCheck

open scoped Computability

/-! ## The grammar -/

/-- The rules by which text is cut up. Of a template and of a comment between stars only the mark
that opens it is matched by a rule. -/
inductive LexicalRule where
  | blanks | lineComment | openComment | openTemplate | word | doubleQuoted | singleQuoted
  | decimal | pointed | based
  /-- A kind of token that has only one spelling. -/
  | mark (kind : Token.Kind)
  | operator
  deriving DecidableEq

namespace LexicalRule

/-- One character of a class. -/
def one (p : Char → Bool) : Language Char := {w | ∃ c, p c = true ∧ w = [c]}

/-- Any number of characters of a class. -/
def many (p : Char → Bool) : Language Char := (one p)∗

/-- One or more characters of a class. -/
def stretch (p : Char → Bool) : Language Char := one p * many p

def optional (l : Language Char) : Language Char := 1 + l

/-- The point of a decimal number and the digits behind it. -/
def fraction : Language Char := one (· = '.') * many Lexeme.isDigitOrBar

/-- The exponent of a number, with its sign. -/
def exponent : Language Char :=
  one (· ∈ ['e', 'E']) * optional (one (· ∈ ['+', '-'])) * stretch Char.isDigit

/-- What can stand between quotation marks: a character that means only itself there, or a backslash
and the character behind it. -/
def quotedUnit (quote : Char) : Language Char :=
  one (· ∉ [quote, '\\', '\n']) + {['\\']} * one (· ≠ '\n')

def quoted (quote : Char) : Language Char := {[quote]} * (quotedUnit quote)∗ * {[quote]}

/-- The texts that match a rule. -/
def language : LexicalRule → Language Char
  | blanks => stretch Lexeme.isBlank
  | lineComment => {['/', '/']} * many (· ≠ '\n')
  | openComment => {['/', '*']}
  | openTemplate => {['`']}
  | word => one Lexeme.isIdentifierStart * many Lexeme.isIdentifierPart
  | doubleQuoted => quoted '"'
  | singleQuoted => quoted '\''
  | decimal => one Char.isDigit * many Lexeme.isDigitOrBar * optional fraction * optional exponent
  | pointed => one (· = '.') * stretch Char.isDigit * optional exponent
  | based => one (· = '0') * one (· ∈ ['x', 'X', 'b', 'B', 'o', 'O']) *
      stretch Lexeme.isHexDigitOrBar
  | mark kind => {w | w = kind.spelling.toList ∧ w ≠ []}
  | operator => one (· ∈ ['!', '%', '^', '~', '\\', '@', '#'])

/-- The kind of the tokens that a rule is for; none, if what it matches is skipped. -/
def kind : LexicalRule → Option Token.Kind
  | blanks | lineComment | openComment => none
  | openTemplate => some .template
  | word => some .identifier
  | doubleQuoted | singleQuoted => some .string
  | decimal | pointed | based => some .number
  | mark kind => some kind
  | operator => some .operator

/-! ## What the parts of the rules match -/

section Parts

variable {p : Char → Bool} {l : Language Char} {w : List Char} {c : Char}

theorem mem_one_mul : w ∈ one p * l ↔ ∃ c tail, p c = true ∧ tail ∈ l ∧ w = c :: tail := by
  rw [Language.mem_mul]
  constructor
  · rintro ⟨_, ⟨c, hc, rfl⟩, tail, htail, rfl⟩
    exact ⟨c, tail, hc, htail, rfl⟩
  · rintro ⟨c, tail, hc, htail, rfl⟩
    exact ⟨[c], ⟨c, hc, rfl⟩, tail, htail, rfl⟩

theorem mem_singleton_mul {first : List Char} :
    w ∈ ({first} : Language Char) * l ↔ ∃ tail ∈ l, w = first ++ tail := by
  rw [Language.mem_mul]
  constructor
  · rintro ⟨_, rfl, tail, htail, rfl⟩
    exact ⟨tail, htail, rfl⟩
  · rintro ⟨tail, htail, rfl⟩
    exact ⟨first, rfl, tail, htail, rfl⟩

theorem append_mem_kstar {u : List Char} (hu : u ∈ l) (hw : w ∈ l∗) : u ++ w ∈ l∗ := by
  obtain ⟨parts, rfl, hparts⟩ := hw
  exact ⟨u :: parts, rfl, List.forall_mem_cons.mpr ⟨hu, hparts⟩⟩

theorem mem_many : w ∈ many p ↔ ∀ c ∈ w, p c = true := by
  constructor
  · rintro ⟨parts, rfl, hparts⟩ c hc
    obtain ⟨part, hpart, hmem⟩ := List.mem_flatten.mp hc
    obtain ⟨d, hd, rfl⟩ := hparts part hpart
    rwa [List.mem_singleton.mp hmem]
  · intro h
    induction w with
    | nil => exact Language.nil_mem_kstar _
    | cons c w ih =>
      rw [List.forall_mem_cons] at h
      exact append_mem_kstar (u := [c]) ⟨c, h.1, rfl⟩ (ih h.2)

theorem mem_stretch : w ∈ stretch p ↔ w ≠ [] ∧ ∀ c ∈ w, p c = true := by
  rw [stretch, mem_one_mul]
  constructor
  · rintro ⟨c, tail, hc, htail, rfl⟩
    exact ⟨List.cons_ne_nil c tail, List.forall_mem_cons.mpr ⟨hc, mem_many.mp htail⟩⟩
  · rintro ⟨hne, hall⟩
    obtain ⟨c, tail, rfl⟩ := List.exists_cons_of_ne_nil hne
    rw [List.forall_mem_cons] at hall
    exact ⟨c, tail, hall.1, mem_many.mpr hall.2, rfl⟩

theorem mem_optional : w ∈ optional l ↔ w = [] ∨ w ∈ l := Iff.rfl

theorem mem_exponent : w ∈ exponent ↔ ∃ e sign digits, (e = 'e' ∨ e = 'E') ∧
    (sign = [] ∨ sign = ['+'] ∨ sign = ['-']) ∧ digits ∈ stretch Char.isDigit ∧
      w = e :: (sign ++ digits) := by
  have hsign : ∀ sign : List Char, sign ∈ optional (one (· ∈ ['+', '-'])) ↔
      sign = [] ∨ sign = ['+'] ∨ sign = ['-'] := by
    intro sign
    rw [mem_optional]
    refine or_congr_right ⟨?_, ?_⟩
    · rintro ⟨c, hc, rfl⟩
      simpa using hc
    · rintro (rfl | rfl)
      · exact ⟨'+', by decide, rfl⟩
      · exact ⟨'-', by decide, rfl⟩
  rw [exponent, mul_assoc, mem_one_mul]
  constructor
  · rintro ⟨e, _, he, ⟨sign, hs, digits, hdigits, rfl⟩, rfl⟩
    exact ⟨e, sign, digits, by simpa using he, (hsign sign).mp hs, hdigits, rfl⟩
  · rintro ⟨e, sign, digits, he, hs, hdigits, rfl⟩
    exact ⟨e, _, by simpa using he,
      Language.append_mem_mul ((hsign sign).mpr hs) hdigits, rfl⟩

end Parts

/-! ## Strings -/

section Strings

variable {quote c : Char} {cs text body : List Char}

theorem mem_quotedUnit : text ∈ quotedUnit quote ↔
    (∃ c, (c ≠ quote ∧ c ≠ '\\' ∧ c ≠ '\n') ∧ text = [c]) ∨
      ∃ c, c ≠ '\n' ∧ text = ['\\', c] := by
  rw [quotedUnit, Language.mem_add, mem_singleton_mul]
  refine or_congr ⟨?_, ?_⟩ ⟨?_, ?_⟩
  · rintro ⟨c, hc, rfl⟩
    exact ⟨c, by simpa using hc, rfl⟩
  · rintro ⟨c, hc, rfl⟩
    exact ⟨c, by simpa using hc, rfl⟩
  · rintro ⟨_, ⟨c, hc, rfl⟩, rfl⟩
    exact ⟨c, by simpa using hc, rfl⟩
  · rintro ⟨c, hc, rfl⟩
    exact ⟨[c], ⟨c, by simpa using hc, rfl⟩, rfl⟩

theorem mem_quoted : text ∈ quoted quote ↔
    ∃ body ∈ (quotedUnit quote)∗, text = quote :: (body ++ [quote]) := by
  rw [quoted, mul_assoc, mem_singleton_mul]
  constructor
  · rintro ⟨_, ⟨body, hbody, _, rfl, rfl⟩, rfl⟩
    exact ⟨body, hbody, rfl⟩
  · rintro ⟨body, hbody, rfl⟩
    exact ⟨body ++ [quote], Language.append_mem_mul hbody rfl, rfl⟩

/-- A string ends at the quotation mark behind its units. -/
theorem quoted_of_mem (hquote : quote = '"' ∨ quote = '\'') (h : body ∈ (quotedUnit quote)∗)
    (more : List Char) :
    Lexeme.quoted quote false (body ++ quote :: more) = some (body ++ [quote]) := by
  obtain ⟨units, rfl, hunits⟩ := h
  have hline : quote ≠ '\n' := by
    rcases hquote with rfl | rfl <;> decide
  induction units with
  | nil => simp [Lexeme.quoted, hline]
  | cons unit units ih =>
    rw [List.forall_mem_cons, mem_quotedUnit] at hunits
    obtain ⟨hfirst, hrest⟩ := hunits
    rw [List.flatten_cons, List.append_assoc, List.append_assoc]
    rcases hfirst with ⟨c, ⟨hmark, hslash, hplain⟩, rfl⟩ | ⟨c, hplain, rfl⟩
    · simp [Lexeme.quoted, hmark, hslash, hplain, ih hrest]
    · have hmark : '\\' ≠ quote := by
        rcases hquote with rfl | rfl <;> decide
      simp [Lexeme.quoted, hmark, hplain, ih hrest]

/-- What a string is read to are units and the quotation mark; a backslash in front of the text
belongs to its first unit. -/
theorem mem_of_quoted {escaped : Bool} (h : Lexeme.quoted quote escaped cs = some text) :
    ∃ body, text = body ++ [quote] ∧
      (if escaped then '\\' :: body else body) ∈ (quotedUnit quote)∗ := by
  induction cs generalizing escaped text with
  | nil => cases h
  | cons c cs ih =>
    rw [Lexeme.quoted] at h
    by_cases hline : c = '\n'
    · rw [if_pos hline] at h
      cases h
    rw [if_neg hline] at h
    cases escaped with
    | true =>
      obtain ⟨tail, htail, rfl⟩ := Option.map_eq_some_iff.mp h
      obtain ⟨body, rfl, hbody⟩ := ih htail
      refine ⟨c :: body, rfl, append_mem_kstar (u := ['\\', c]) ?_ hbody⟩
      exact mem_quotedUnit.mpr (.inr ⟨c, hline, rfl⟩)
    | false =>
      rw [if_neg Bool.false_ne_true] at h
      by_cases hmark : c = quote
      · rw [if_pos hmark] at h
        cases h
        exact ⟨[], by rw [hmark]; rfl, Language.nil_mem_kstar _⟩
      rw [if_neg hmark] at h
      obtain ⟨tail, htail, rfl⟩ := Option.map_eq_some_iff.mp h
      obtain ⟨body, rfl, hbody⟩ := ih htail
      refine ⟨c :: body, rfl, ?_⟩
      rw [if_neg Bool.false_ne_true]
      by_cases hslash : c = '\\'
      · rwa [decide_eq_true hslash, if_pos rfl, ← hslash] at hbody
      · rw [decide_eq_false hslash, if_neg Bool.false_ne_true] at hbody
        refine append_mem_kstar (u := [c]) ?_ hbody
        exact mem_quotedUnit.mpr (.inl ⟨c, ⟨hmark, hslash, hline⟩, rfl⟩)

end Strings

/-! ## Numbers -/

section Numbers

variable {p : Char → Bool} {c : Char} {cs w u v : List Char}

theorem prefix_takeWhile (hw : ∀ c ∈ w, p c = true) (h : w <+: cs) : w <+: cs.takeWhile p := by
  obtain ⟨rest, rfl⟩ := h
  rw [List.takeWhile_append_of_pos hw]
  exact List.prefix_append w _

/-- A stretch that is followed by something else is as long as it can be. -/
theorem eq_takeWhile (hu : ∀ c ∈ u, p c = true) (hv : ∃ d, v.head? = some d ∧ p d = false)
    (h : u ++ v <+: cs) : u = cs.takeWhile p ∧ v <+: cs.drop u.length := by
  obtain ⟨rest, rfl⟩ := h
  obtain ⟨d, hd, hstop⟩ := hv
  obtain ⟨v, rfl⟩ := List.head?_eq_some_iff.mp hd
  rw [List.append_assoc]
  constructor
  · rw [List.takeWhile_append_of_pos hu, List.cons_append,
      List.takeWhile_cons_of_neg (by simp [hstop]), List.append_nil]
  · rw [List.drop_left]
    exact List.prefix_append _ _

theorem head_exponent (h : w ∈ exponent) :
    ∃ d, w.head? = some d ∧ Lexeme.isDigitOrBar d = false ∧ d.isDigit = false ∧ d ≠ '.' := by
  obtain ⟨e, sign, digits, he, -, -, rfl⟩ := mem_exponent.mp h
  refine ⟨e, rfl, ?_⟩
  rcases he with rfl | rfl <;> decide

/-- An exponent is read with all digits that follow. -/
theorem exponent_eq {e : Char} {sign digits : List Char} (he : e = 'e' ∨ e = 'E')
    (hsign : sign = [] ∨ sign = ['+'] ∨ sign = ['-']) (hdigits : digits ∈ stretch Char.isDigit)
    (rest : List Char) : Lexeme.exponent (e :: (sign ++ (digits ++ rest)))
      = e :: (sign ++ (digits ++ rest.takeWhile Char.isDigit)) := by
  obtain ⟨hne, hall⟩ := mem_stretch.mp hdigits
  have htake : (digits ++ rest).takeWhile Char.isDigit = digits ++ rest.takeWhile Char.isDigit :=
    List.takeWhile_append_of_pos hall
  have hfound : digits ++ rest.takeWhile Char.isDigit ≠ [] := by simp [hne]
  obtain ⟨d, digits, rfl⟩ := List.exists_cons_of_ne_nil hne
  have hplus : d ≠ '+' := by
    rintro rfl
    exact absurd (hall '+' List.mem_cons_self) (by decide)
  have hminus : d ≠ '-' := by
    rintro rfl
    exact absurd (hall '-' List.mem_cons_self) (by decide)
  rw [List.cons_append] at htake
  rcases hsign with rfl | rfl | rfl
  · simp [Lexeme.exponent, he, hplus, hminus, htake]
  · simp [Lexeme.exponent, he, htake]
  · simp [Lexeme.exponent, he, htake]

theorem length_le_exponent (hw : w ∈ optional exponent) (h : w <+: cs) :
    w.length ≤ (Lexeme.exponent cs).length := by
  rcases mem_optional.mp hw with rfl | hw
  · exact Nat.zero_le _
  obtain ⟨e, sign, digits, he, hsign, hdigits, rfl⟩ := mem_exponent.mp hw
  obtain ⟨rest, rfl⟩ := h
  rw [List.cons_append, List.append_assoc, exponent_eq he hsign hdigits]
  simp only [List.length_cons, List.length_append]
  omega

theorem exponent_mem (cs : List Char) : Lexeme.exponent cs ∈ optional exponent := by
  rw [mem_optional]
  cases cs with
  | nil => exact .inl rfl
  | cons e cs =>
    have hsign : ∃ sign, (sign = [] ∨ sign = ['+'] ∨ sign = ['-']) ∧ Lexeme.exponent (e :: cs)
        = if (e = 'e' ∨ e = 'E') ∧ (cs.drop sign.length).takeWhile Char.isDigit ≠ [] then
            e :: (sign ++ (cs.drop sign.length).takeWhile Char.isDigit) else [] := by
      cases cs with
      | nil => exact ⟨[], .inl rfl, rfl⟩
      | cons s cs =>
        by_cases hs : s = '+' ∨ s = '-'
        · refine ⟨[s], .inr (by simpa using hs), ?_⟩
          simp only [Lexeme.exponent, if_pos hs]
        · refine ⟨[], .inl rfl, ?_⟩
          simp only [Lexeme.exponent, if_neg hs]
    obtain ⟨sign, hsign, heq⟩ := hsign
    rw [heq]
    split
    · rename_i hboth
      refine .inr (mem_exponent.mpr ⟨e, sign, _, hboth.1, hsign, ?_, rfl⟩)
      exact mem_stretch.mpr ⟨hboth.2, List.all_eq_true.mp List.all_takeWhile⟩
    · exact .inl rfl

/-- What stands behind the whole part of a decimal number. -/
theorem length_le_fraction (hu : u ∈ optional fraction) (hv : v ∈ optional exponent)
    (h : u ++ v <+: cs) : (u ++ v).length ≤
      (Lexeme.fraction cs ++ Lexeme.exponent (cs.drop (Lexeme.fraction cs).length)).length := by
  rw [List.length_append]
  rcases mem_optional.mp hu with rfl | hu
  · -- An exponent leaves no room for a fraction in front of it.
    rcases mem_optional.mp hv with rfl | hmem
    · exact Nat.zero_le _
    obtain ⟨d, hd, -, -, hpoint⟩ := head_exponent hmem
    have hnone : Lexeme.fraction cs = [] := by
      obtain ⟨rest, rfl⟩ := h
      obtain ⟨v, rfl⟩ := List.head?_eq_some_iff.mp hd
      unfold Lexeme.fraction
      simp [hpoint]
    rw [hnone, List.nil_append, List.length_nil, List.drop_zero, Nat.zero_add]
    exact length_le_exponent hv h
  · obtain ⟨_, digits, hpoint, hdigits, rfl⟩ := mem_one_mul.mp hu
    rw [decide_eq_true_eq] at hpoint
    subst hpoint
    rw [mem_many] at hdigits
    obtain ⟨rest, rfl⟩ := h
    have hfraction : Lexeme.fraction ('.' :: digits ++ v ++ rest)
        = '.' :: (digits ++ v ++ rest).takeWhile Lexeme.isDigitOrBar := rfl
    rw [hfraction, List.length_append, List.length_cons, List.length_cons, List.cons_append,
      List.cons_append, List.drop_succ_cons]
    rcases mem_optional.mp hv with rfl | hmem
    · have hle := (prefix_takeWhile hdigits (List.prefix_append digits rest)).length_le
      rw [List.append_nil, List.length_nil]
      omega
    · obtain ⟨d, hd, hbar, -, -⟩ := head_exponent hmem
      obtain ⟨htake, hrest⟩ := eq_takeWhile hdigits ⟨d, hd, hbar⟩
        (List.prefix_append (digits ++ v) rest)
      rw [← htake]
      have hle := length_le_exponent hv hrest
      omega

theorem mem_decimal : w ∈ decimal.language ↔ ∃ c digits u v, c.isDigit = true ∧
    (∀ d ∈ c :: digits, Lexeme.isDigitOrBar d = true) ∧ u ∈ optional fraction ∧
      v ∈ optional exponent ∧ w = c :: digits ++ (u ++ v) := by
  rw [language, mul_assoc, mul_assoc, mem_one_mul]
  constructor
  · rintro ⟨c, _, hc, ⟨digits, hdigits, _, ⟨u, hu, v, hv, rfl⟩, rfl⟩, rfl⟩
    refine ⟨c, digits, u, v, hc, List.forall_mem_cons.mpr ⟨?_, mem_many.mp hdigits⟩, hu, hv, rfl⟩
    rw [Lexeme.isDigitOrBar, hc, Bool.true_or]
  · rintro ⟨c, digits, u, v, hc, hdigits, hu, hv, rfl⟩
    rw [List.forall_mem_cons] at hdigits
    exact ⟨c, _, hc, Language.append_mem_mul (mem_many.mpr hdigits.2)
      (Language.append_mem_mul hu hv), rfl⟩

theorem length_le_decimal (hw : w ∈ decimal.language) (h : w <+: cs) :
    w.length ≤ (Lexeme.decimal cs).length := by
  obtain ⟨c, digits, u, v, hc, hwhole, hu, hv, rfl⟩ := mem_decimal.mp hw
  simp only [Lexeme.decimal, List.append_assoc]
  rw [List.length_append, @List.length_append _ (cs.takeWhile Lexeme.isDigitOrBar)]
  by_cases hnil : u ++ v = []
  · rw [hnil, List.append_nil] at h
    have hle := (prefix_takeWhile hwhole h).length_le
    rw [hnil, List.length_nil]
    omega
  · have hstop : ∃ d, (u ++ v).head? = some d ∧ Lexeme.isDigitOrBar d = false := by
      rcases mem_optional.mp hu with rfl | hpart
      · rcases mem_optional.mp hv with rfl | hmem
        · exact absurd rfl hnil
        · obtain ⟨d, hd, hbar, -, -⟩ := head_exponent hmem
          exact ⟨d, hd, hbar⟩
      · obtain ⟨d, tail, hd, -, rfl⟩ := mem_one_mul.mp hpart
        rw [decide_eq_true_eq] at hd
        exact ⟨d, rfl, by rw [hd]; decide⟩
    obtain ⟨htake, hrest⟩ := eq_takeWhile hwhole hstop h
    have hle := length_le_fraction hu hv hrest
    rw [List.drop_drop] at hle
    rw [← htake]
    omega

theorem fraction_mem (cs : List Char) : Lexeme.fraction cs ∈ optional fraction := by
  unfold Lexeme.fraction
  split
  · rename_i digits
    refine .inr (mem_one_mul.mpr ⟨'.', _, decide_eq_true rfl, ?_, rfl⟩)
    exact mem_many.mpr (List.all_eq_true.mp List.all_takeWhile)
  · exact .inl rfl

theorem decimal_mem (hc : c.isDigit = true) (cs : List Char) :
    Lexeme.decimal (c :: cs) ∈ decimal.language := by
  have hbar : Lexeme.isDigitOrBar c = true := by
    rw [Lexeme.isDigitOrBar, hc, Bool.true_or]
  have hwhole : (c :: cs).takeWhile Lexeme.isDigitOrBar
      = c :: cs.takeWhile Lexeme.isDigitOrBar := List.takeWhile_cons_of_pos hbar
  have hall : ∀ d ∈ c :: cs.takeWhile Lexeme.isDigitOrBar, Lexeme.isDigitOrBar d = true := by
    rw [← hwhole]
    exact List.all_eq_true.mp List.all_takeWhile
  rw [Lexeme.decimal, hwhole, List.append_assoc]
  exact mem_decimal.mpr ⟨c, _, _, _, hc, hall, fraction_mem _, exponent_mem _, rfl⟩

theorem mem_based : w ∈ based.language ↔ ∃ x digits, x ∈ ['x', 'X', 'b', 'B', 'o', 'O'] ∧
    digits ∈ stretch Lexeme.isHexDigitOrBar ∧ w = '0' :: x :: digits := by
  rw [language, mul_assoc, mem_one_mul]
  constructor
  · rintro ⟨_, _, hzero, hrest, rfl⟩
    obtain ⟨x, digits, hx, hdigits, rfl⟩ := mem_one_mul.mp hrest
    exact ⟨x, digits, of_decide_eq_true hx, hdigits, by rw [of_decide_eq_true hzero]⟩
  · rintro ⟨x, digits, hx, hdigits, rfl⟩
    refine ⟨'0', _, decide_eq_true rfl, ?_, rfl⟩
    exact mem_one_mul.mpr ⟨x, digits, decide_eq_true hx, hdigits, rfl⟩

/-- What begins like a number with a base is only a zero for the rule of decimal numbers. -/
theorem decimal_of_base {x : Char} (hx : x ∈ ['x', 'X', 'b', 'B', 'o', 'O']) (cs : List Char) :
    Lexeme.decimal ('0' :: x :: cs) = ['0'] := by
  simp only [List.mem_cons, List.not_mem_nil, or_false] at hx
  rcases hx with rfl | rfl | rfl | rfl | rfl | rfl <;> cases cs <;> rfl

/-- A number is as long as any of the rules for numbers that begin with a digit allows. -/
theorem length_le_number (hw : w ∈ decimal.language ∨ w ∈ based.language) (h : w <+: cs) :
    w.length ≤ (Lexeme.number cs).length := by
  unfold Lexeme.number
  dsimp only
  rcases hw with hw | hw
  · have hle := length_le_decimal hw h
    split
    · exact hle
    · rename_i hbase
      match cs with
      | [] => exact absurd rfl hbase
      | [c] => exact absurd (Lexeme.radixDigits_of_short (by simp)) hbase
      | c :: x :: cs =>
        rw [Lexeme.radixDigits_cons] at hbase
        have hboth := (ite_ne_right_iff.mp hbase).1
        rw [hboth.1, decimal_of_base hboth.2] at hle
        simp only [List.length_append, List.length_take, List.length_cons, List.length_nil] at hle ⊢
        omega
  · obtain ⟨x, digits, hx, hdigits, rfl⟩ := mem_based.mp hw
    obtain ⟨hne, hall⟩ := mem_stretch.mp hdigits
    obtain ⟨rest, rfl⟩ := h
    have hfound : Lexeme.radixDigits ('0' :: x :: digits ++ rest)
        = digits ++ rest.takeWhile Lexeme.isHexDigitOrBar := by
      rw [List.cons_append, List.cons_append, Lexeme.radixDigits_cons, if_pos ⟨rfl, hx⟩,
        List.takeWhile_append_of_pos hall]
    rw [hfound, if_neg (by simp [hne])]
    simp only [List.cons_append, List.length_append, List.length_take, List.length_cons]
    omega

theorem number_mem (hc : c.isDigit = true) (cs : List Char) :
    Lexeme.number (c :: cs) ∈ decimal.language ∨ Lexeme.number (c :: cs) ∈ based.language := by
  unfold Lexeme.number
  dsimp only
  split
  · exact .inl (decimal_mem hc cs)
  · rename_i hbase
    right
    match cs with
    | [] => exact absurd (Lexeme.radixDigits_of_short (by simp)) hbase
    | x :: cs =>
      rw [Lexeme.radixDigits_cons] at hbase ⊢
      have hboth := (ite_ne_right_iff.mp hbase).1
      rw [if_pos hboth] at hbase ⊢
      refine mem_based.mpr ⟨x, _, hboth.2, ?_, by rw [← hboth.1]; rfl⟩
      exact mem_stretch.mpr ⟨hbase, List.all_eq_true.mp List.all_takeWhile⟩

theorem mem_pointed : w ∈ pointed.language ↔ ∃ digits v, digits ∈ stretch Char.isDigit ∧
    v ∈ optional exponent ∧ w = '.' :: (digits ++ v) := by
  rw [language, mul_assoc, mem_one_mul]
  constructor
  · rintro ⟨_, _, hpoint, ⟨digits, hdigits, v, hv, rfl⟩, rfl⟩
    exact ⟨digits, v, hdigits, hv, by rw [of_decide_eq_true hpoint]⟩
  · rintro ⟨digits, v, hdigits, hv, rfl⟩
    exact ⟨'.', _, decide_eq_true rfl, Language.append_mem_mul hdigits hv, rfl⟩

theorem length_le_pointDigits {digits : List Char} (hdigits : digits ∈ stretch Char.isDigit)
    (hv : v ∈ optional exponent) (h : digits ++ v <+: cs) :
    (digits ++ v).length ≤ (Lexeme.pointDigits cs).length := by
  obtain ⟨hne, hall⟩ := mem_stretch.mp hdigits
  have hprefix := prefix_takeWhile hall ((List.prefix_append digits v).trans h)
  have hfound : cs.takeWhile Char.isDigit ≠ [] := by
    intro hnil
    rw [hnil, List.prefix_nil] at hprefix
    exact hne hprefix
  unfold Lexeme.pointDigits
  dsimp only
  rw [if_neg hfound, List.length_append, List.length_append]
  rcases mem_optional.mp hv with rfl | hmem
  · have hle := hprefix.length_le
    rw [List.length_nil]
    omega
  · obtain ⟨d, hd, -, hdigit, -⟩ := head_exponent hmem
    obtain ⟨htake, hrest⟩ := eq_takeWhile hall ⟨d, hd, hdigit⟩ h
    have hle := length_le_exponent hv hrest
    rw [← htake]
    omega

theorem pointDigits_mem (h : Lexeme.pointDigits cs ≠ []) :
    '.' :: Lexeme.pointDigits cs ∈ pointed.language := by
  have hfound := mt Lexeme.pointDigits_eq_nil.mpr h
  unfold Lexeme.pointDigits
  dsimp only
  rw [if_neg hfound]
  refine mem_pointed.mpr ⟨_, _, ?_, exponent_mem _, rfl⟩
  exact mem_stretch.mpr ⟨hfound, List.all_eq_true.mp List.all_takeWhile⟩

end Numbers

end LexicalRule

end AliasCheck
