import AliasCheck.Proofs.LexicalRules

/-!
# Lexemes are longest matches

A source that can be scanned is a sequence of lexemes, and each of them is what the lexical grammar
cuts off at its place: the longest beginning of the remaining text that any rule matches. Only what
such a match opens goes on behind it, a comment and a template through the first mark that closes
them. Rules overlap in what they begin with, so that no rule matches more than what is read is shown
rule by rule (`Lexeme.Rule.match_le`); for each rule the lexeme is known once it has matched.
-/

namespace AliasCheck

/-! ## What is longest -/

/-- The longest beginning of `text` that matches a rule is `w`, which matches `rule` and no rule for
another kind. -/
structure LongestMatch (rule : LexicalRule) (w text : List Char) : Prop where
  mem : w ∈ rule.language
  front : w <+: text
  longest : ∀ other v, v ∈ LexicalRule.language other → v <+: text → v.length ≤ w.length
  kind_eq : ∀ other, w ∈ LexicalRule.language other → other.kind = rule.kind

namespace Lexeme

/-- What the lexical grammar cuts off at the beginning of `text`. -/
inductive CutOff (text : List Char) : Lexeme → Prop where
  | blank {rule : LexicalRule} {w : List Char} (hmatch : LongestMatch rule w text)
      (hkind : rule.kind = none) (hclosed : rule ≠ .openComment) : CutOff text (.blank w)
  /-- A comment between stars ends with the first `*/` behind the mark that opens it. -/
  | comment {body rest : List Char} (hmatch : LongestMatch .openComment ['/', '*'] text)
      (htext : text = '/' :: '*' :: (body ++ '*' :: '/' :: rest))
      (hfirst : ¬ ['*', '/'] <:+: body ++ ['*']) :
      CutOff text (.blank ('/' :: '*' :: (body ++ ['*', '/'])))
  | token {rule : LexicalRule} {w : List Char} {kind : Token.Kind}
      (hmatch : LongestMatch rule w text) (hkind : rule.kind = some kind)
      (hclosed : rule ≠ .openTemplate) : CutOff text (.token kind w)
  /-- A template ends with the first mark that no backslash escapes. -/
  | template {body rest : List Char} (hmatch : LongestMatch .openTemplate ['`'] text)
      (htext : text = '`' :: (body ++ '`' :: rest)) (hbody : escapesNext body = false)
      (hfirst : ∀ front back, body = front ++ '`' :: back → escapesNext front = true) :
      CutOff text (.token .template ('`' :: (body ++ ['`'])))
  | regex {body rest : List Char} (hmatch : LongestMatch (.mark .slash) ['/'] text)
      (htext : text = '/' :: (body ++ rest)) : CutOff text (.token .regex ('/' :: body))

/-- The part of a lexeme that a rule matches: all of it, or the mark that opens it. -/
def opening : Lexeme → List Char
  | token .template text | token .regex text => text.take 1
  | token _ text => text
  | blank ('/' :: '*' :: _) => ['/', '*']
  | blank text => text
  | broken _ => []

/-- The kind of the rule that matches a lexeme; what turns out to be a regular expression begins as
a slash. -/
def openingKind : Lexeme → Option Token.Kind
  | token .regex _ => some .slash
  | token kind _ => some kind
  | blank _ | broken _ => none

section Match

variable {allowed : Bool} {c : Char} {cs w text : List Char} {lexeme other : Lexeme}
  {kind : Token.Kind} {rule : LexicalRule}

theorem Rule.unique (h : Rule allowed c cs lexeme) (h' : Rule allowed c cs other) :
    lexeme = other := h.read_eq.symm.trans h'.read_eq

theorem opening_blank (h : ¬ ['/', '*'] <+: text) : (blank text).opening = text := by
  unfold opening
  split
  case h_4 heq =>
    cases heq
    exact absurd (List.prefix_append ['/', '*'] _) h
  all_goals simp_all

theorem opening_blanks (hc : isBlank c = true) (tail : List Char) :
    (blank (c :: tail)).opening = c :: tail := by
  refine opening_blank fun hfront => ?_
  obtain ⟨rfl, -⟩ := List.cons_prefix_cons.mp hfront
  exact absurd hc (by decide)

theorem opening_token (htemplate : kind ≠ .template) (hregex : kind ≠ .regex) :
    (token kind text).opening = text := by
  cases kind <;> first | rfl | contradiction

theorem openingKind_token (hregex : kind ≠ .regex) : (token kind text).openingKind = some kind := by
  cases kind <;> first | rfl | contradiction

/-! ## What is read matches -/

/-- A kind with one spelling is a rule, and so are the operators. -/
theorem mem_of_punctuation (h : punctuation c = some kind) :
    ∃ rule : LexicalRule, [c] ∈ rule.language ∧ rule.kind = some kind := by
  unfold punctuation at h
  split at h
  all_goals cases h
  all_goals
    first
    | exact ⟨.mark _, ⟨rfl, by decide⟩, rfl⟩
    | exact ⟨.operator, ⟨_, by decide, rfl⟩, rfl⟩

theorem punctuation_kind_ne (h : punctuation c = some kind) : kind ≠ .template ∧ kind ≠ .regex := by
  unfold punctuation at h
  split at h <;> cases h <;> decide

theorem Rule.opening_mem (h : Rule allowed c cs lexeme) :
    ∃ rule : LexicalRule, lexeme.opening ∈ rule.language ∧ rule.kind = lexeme.openingKind := by
  cases h with
  | @blanks c cs hc =>
    rw [opening_blanks hc]
    refine ⟨.blanks, LexicalRule.mem_stretch.mpr ⟨List.cons_ne_nil _ _, ?_⟩, rfl⟩
    exact List.forall_mem_cons.mpr ⟨hc, List.all_eq_true.mp List.all_takeWhile⟩
  | @lineComment cs =>
    rw [opening_blank (by simp)]
    refine ⟨.lineComment, LexicalRule.mem_singleton_mul.mpr ⟨_, ?_, rfl⟩, rfl⟩
    exact LexicalRule.mem_many.mpr (List.all_eq_true.mp List.all_takeWhile)
  | blockComment h => exact ⟨.openComment, rfl, rfl⟩
  | word hc =>
    refine ⟨.word, LexicalRule.mem_one_mul.mpr ⟨_, _, hc, ?_, rfl⟩, rfl⟩
    exact LexicalRule.mem_many.mpr (List.all_eq_true.mp List.all_takeWhile)
  | number hc =>
    rcases LexicalRule.number_mem hc _ with hmem | hmem
    · exact ⟨.decimal, hmem, rfl⟩
    · exact ⟨.based, hmem, rfl⟩
  | string hquote h =>
    obtain ⟨body, rfl, hbody⟩ := LexicalRule.mem_of_quoted h
    have hmem := LexicalRule.mem_quoted.mpr ⟨body, hbody, rfl⟩
    rcases hquote with rfl | rfl
    · exact ⟨.doubleQuoted, hmem, rfl⟩
    · exact ⟨.singleQuoted, hmem, rfl⟩
  | template h => exact ⟨.openTemplate, rfl, rfl⟩
  | regex _ _ _ _ => exact ⟨.mark .slash, ⟨rfl, List.cons_ne_nil _ _⟩, rfl⟩
  | slash _ _ _ => exact ⟨.mark .slash, ⟨rfl, by decide⟩, rfl⟩
  | ellipsis _ => exact ⟨.mark .ellipsis, ⟨rfl, by decide⟩, rfl⟩
  | fraction _ hdigits => exact ⟨.pointed, LexicalRule.pointDigits_mem hdigits, rfl⟩
  | dot _ _ => exact ⟨.mark .dot, ⟨rfl, by decide⟩, rfl⟩
  | arrow _ => exact ⟨.mark .arrow, ⟨rfl, by decide⟩, rfl⟩
  | equals _ => exact ⟨.mark .equals, ⟨rfl, by decide⟩, rfl⟩
  | mark h =>
    obtain ⟨htemplate, hregex⟩ := punctuation_kind_ne h
    rw [opening_token htemplate hregex, openingKind_token hregex]
    exact mem_of_punctuation h

/-! ## No rule matches more -/

/-- A lexeme that is a character alone, whatever follows it. -/
theorem Rule.of_punctuation (h : Rule allowed c cs lexeme) (hc : punctuation c = some kind) :
    lexeme.opening = [c] ∧ lexeme.openingKind = some kind := by
  obtain ⟨htemplate, hregex⟩ := punctuation_kind_ne hc
  cases h.unique (.mark hc)
  exact ⟨opening_token htemplate hregex, openingKind_token hregex⟩

/-- The characters that are tokens whatever follows them are all the spellings of one character but
those of the slash, the point and the equals sign. -/
theorem punctuation_of_spelling (hne : kind.spelling.toList ≠ []) :
    kind ∈ [.slash, .dot, .ellipsis, .equals, .arrow] ∨
      ∃ c, kind.spelling.toList = [c] ∧ punctuation c = some kind := by
  cases kind
  case slash | dot | ellipsis | equals | arrow => exact .inl (by decide)
  case identifier | string | template | number | operator | regex => exact absurd rfl hne
  all_goals exact .inr ⟨_, rfl, rfl⟩

/-- The other three marks of one character are the whole opening of a lexeme only if it is of their
kind. -/
theorem Rule.opening_eq_mark (h : Rule allowed c cs lexeme)
    (hc : (c, kind) ∈ [('/', .slash), ('.', .dot), ('=', .equals)]) :
    1 ≤ lexeme.opening.length ∧ ([c] = lexeme.opening → some kind = lexeme.openingKind) := by
  have hother : isBlank c = false ∧ isIdentifierStart c = false ∧ c.isDigit = false ∧
      (c ≠ '"' ∧ c ≠ '\'') ∧ punctuation c = none := by
    simp only [List.mem_cons, List.not_mem_nil, or_false, Prod.mk.injEq] at hc
    rcases hc with ⟨rfl, -⟩ | ⟨rfl, -⟩ | ⟨rfl, -⟩ <;> decide
  obtain ⟨hblank, hword, hdigit, hquote, hmark⟩ := hother
  cases h with
  | blanks h => exact absurd h (by rw [hblank]; decide)
  | lineComment =>
    rw [opening_blank (by simp)]
    exact ⟨by simp, by simp⟩
  | blockComment _ => exact ⟨Nat.le_succ 1, nofun⟩
  | word h => exact absurd h (by rw [hword]; decide)
  | number h => exact absurd h (by rw [hdigit]; decide)
  | string h _ => exact absurd h (not_or.mpr hquote)
  | ellipsis _ => exact ⟨by decide, fun heq => absurd heq (by decide)⟩
  | fraction _ hdigits =>
    refine ⟨Nat.succ_le_succ (Nat.zero_le _), fun heq => ?_⟩
    exact absurd (List.cons.inj heq).2.symm hdigits
  | arrow _ => exact ⟨by decide, fun heq => absurd heq (by decide)⟩
  | mark h => exact absurd h (by rw [hmark]; nofun)
  | template _ => exact absurd hc (by simp)
  | regex _ _ _ _ | slash _ _ _ | dot _ _ | equals _ =>
    obtain rfl : kind = _ := by simpa using hc
    exact ⟨Nat.le_refl 1, fun _ => rfl⟩

theorem Rule.of_quoted {quote : Char} {rest : List Char} (h : Rule allowed c cs lexeme)
    (hquote : quote = '"' ∨ quote = '\'') (hw : w ∈ LexicalRule.quoted quote)
    (hrest : w ++ rest = c :: cs) : lexeme = .token .string w := by
  obtain ⟨body, hbody, rfl⟩ := LexicalRule.mem_quoted.mp hw
  rw [List.cons_append, List.append_assoc] at hrest
  cases hrest
  exact h.unique (.string hquote (LexicalRule.quoted_of_mem hquote hbody rest))

/-- No rule matches more than what is read, and none for another kind matches as much. -/
theorem Rule.match_le (h : Rule allowed c cs lexeme) (hw : w ∈ rule.language)
    (hfront : w <+: c :: cs) : w.length ≤ lexeme.opening.length ∧
      (w = lexeme.opening → rule.kind = lexeme.openingKind) := by
  obtain ⟨rest, hrest⟩ := hfront
  cases rule with
  | blanks =>
    obtain ⟨hne, hall⟩ := LexicalRule.mem_stretch.mp hw
    obtain ⟨d, tail, rfl⟩ := List.exists_cons_of_ne_nil hne
    cases hrest
    rw [List.forall_mem_cons] at hall
    cases h.unique (.blanks hall.1)
    have hle := (LexicalRule.prefix_takeWhile hall.2 (List.prefix_append tail rest)).length_le
    rw [opening_blanks hall.1]
    exact ⟨Nat.succ_le_succ hle, fun _ => rfl⟩
  | lineComment =>
    obtain ⟨body, hbody, rfl⟩ := LexicalRule.mem_singleton_mul.mp hw
    cases hrest
    cases h.unique .lineComment
    have hle := (LexicalRule.prefix_takeWhile (LexicalRule.mem_many.mp hbody)
      (List.prefix_append body rest)).length_le
    rw [opening_blank (by simp)]
    exact ⟨Nat.succ_le_succ (Nat.succ_le_succ hle), fun _ => rfl⟩
  | openComment =>
    cases hw
    cases hrest
    cases h with
    | blanks hc => exact absurd hc (by decide)
    | blockComment _ => exact ⟨Nat.le_refl 2, fun _ => rfl⟩
    | word hc => exact absurd hc (by decide)
    | number hc => exact absurd hc (by decide)
    | string hquote _ => exact absurd hquote (by decide)
    | regex _ hstar _ _ => exact absurd rfl hstar
    | slash _ hstar _ => exact absurd rfl hstar
    | mark h => cases h
  | openTemplate =>
    cases hw
    cases hrest
    cases h with
    | blanks hc => exact absurd hc (by decide)
    | word hc => exact absurd hc (by decide)
    | number hc => exact absurd hc (by decide)
    | string hquote _ => exact absurd hquote (by decide)
    | template _ => exact ⟨Nat.le_refl 1, fun _ => rfl⟩
    | mark h => cases h
  | word =>
    obtain ⟨d, tail, hd, htail, rfl⟩ := LexicalRule.mem_one_mul.mp hw
    cases hrest
    cases h.unique (.word hd)
    have hle := (LexicalRule.prefix_takeWhile (LexicalRule.mem_many.mp htail)
      (List.prefix_append tail rest)).length_le
    exact ⟨Nat.succ_le_succ hle, fun _ => rfl⟩
  | doubleQuoted | singleQuoted =>
    cases h.of_quoted (by decide) hw hrest
    exact ⟨Nat.le_refl _, fun _ => rfl⟩
  | decimal =>
    obtain ⟨d, digits, u, v, hd, -, -, -, rfl⟩ := LexicalRule.mem_decimal.mp hw
    cases hrest
    cases h.unique (.number hd)
    exact ⟨LexicalRule.length_le_number (.inl hw) ⟨rest, rfl⟩, fun _ => rfl⟩
  | based =>
    obtain ⟨x, digits, -, -, rfl⟩ := LexicalRule.mem_based.mp hw
    cases hrest
    cases h.unique (.number (by decide))
    exact ⟨LexicalRule.length_le_number (.inr hw) ⟨rest, rfl⟩, fun _ => rfl⟩
  | pointed =>
    obtain ⟨digits, v, hdigits, hv, rfl⟩ := LexicalRule.mem_pointed.mp hw
    cases hrest
    have hle := LexicalRule.length_le_pointDigits hdigits hv (List.prefix_append _ rest)
    obtain ⟨hne, hall⟩ := LexicalRule.mem_stretch.mp hdigits
    obtain ⟨d, digits, rfl⟩ := List.exists_cons_of_ne_nil hne
    have hpoint : d ≠ '.' := by
      rintro rfl
      exact absurd (hall '.' List.mem_cons_self) (by decide)
    have hfound : pointDigits (d :: digits ++ v ++ rest) ≠ [] := by
      intro hnil
      rw [hnil] at hle
      exact absurd hle (by simp)
    cases h.unique (.fraction (by simp [hpoint]) hfound)
    exact ⟨Nat.succ_le_succ hle, fun _ => rfl⟩
  | mark kind =>
    obtain ⟨rfl, hne⟩ := hw
    rcases punctuation_of_spelling hne with hspecial | ⟨d, hspelling, hkind⟩
    · simp only [List.mem_cons, List.not_mem_nil, or_false] at hspecial
      rcases hspecial with rfl | rfl | rfl | rfl | rfl
      · cases hrest
        exact h.opening_eq_mark (by decide)
      · cases hrest
        exact h.opening_eq_mark (by decide)
      · cases hrest
        cases h.unique (.ellipsis rfl)
        exact ⟨Nat.le_refl 3, fun _ => rfl⟩
      · cases hrest
        exact h.opening_eq_mark (by decide)
      · cases hrest
        cases h.unique (.arrow rfl)
        exact ⟨Nat.le_refl 2, fun _ => rfl⟩
    · rw [hspelling] at hrest ⊢
      cases hrest
      obtain ⟨hopening, hopens⟩ := h.of_punctuation hkind
      rw [hopening, hopens]
      exact ⟨Nat.le_refl 1, fun _ => rfl⟩
  | operator =>
    obtain ⟨d, hd, rfl⟩ := hw
    cases hrest
    have hkind : punctuation c = some .operator := by
      rw [decide_eq_true_eq] at hd
      simp only [List.mem_cons, List.not_mem_nil, or_false] at hd
      rcases hd with rfl | rfl | rfl | rfl | rfl | rfl | rfl <;> rfl
    obtain ⟨hopening, hopens⟩ := h.of_punctuation hkind
    rw [hopening, hopens]
    exact ⟨Nat.le_refl 1, fun _ => rfl⟩

theorem opening_prefix_text (lexeme : Lexeme) : lexeme.opening <+: lexeme.text := by
  unfold opening text
  split
  · exact List.take_prefix 1 _
  · exact List.take_prefix 1 _
  · exact List.prefix_refl _
  · exact List.prefix_append ['/', '*'] _
  · exact List.prefix_refl _
  · exact List.prefix_refl _

theorem Rule.opening_front (h : Rule allowed c cs lexeme) : lexeme.opening <+: c :: cs := by
  obtain ⟨tail, rest, htext, rfl⟩ := h.front
  refine (opening_prefix_text lexeme).trans ?_
  rw [htext]
  exact List.prefix_append (c :: tail) rest

theorem Rule.longestMatch (h : Rule allowed c cs lexeme) (hmem : lexeme.opening ∈ rule.language) :
    LongestMatch rule lexeme.opening (c :: cs) where
  mem := hmem
  front := h.opening_front
  longest := fun _ _ hv hfront => (h.match_le hv hfront).1
  kind_eq := by
    intro other hother
    rw [(h.match_le hother h.opening_front).2 rfl, (h.match_le hmem h.opening_front).2 rfl]

/-! ## What is opened is closed -/

/-- A search for a mark stops at the first one that is not escaped. -/
theorem upToMark_eq_some {ends : Char → Bool} {mark : Char} {escaped : Bool}
    (h : upToMark ends mark escaped cs = some text) :
    ∃ body rest, text = body ++ [mark] ∧ cs = body ++ mark :: rest ∧
      body.foldl (fun escaped c => !escaped && c = '\\') escaped = false ∧
      ∀ front back, body = front ++ mark :: back →
        front.foldl (fun escaped c => !escaped && c = '\\') escaped = true := by
  induction cs generalizing escaped text with
  | nil => cases h
  | cons c cs ih =>
    rw [upToMark_cons] at h
    split at h
    · cases h
    split at h
    · rename_i hmark
      cases h
      refine ⟨[], cs, by rw [hmark.1]; rfl, by rw [hmark.1]; rfl, hmark.2, ?_⟩
      exact fun front back heq => absurd heq (by simp)
    · rename_i hmark
      obtain ⟨tail, htail, rfl⟩ := Option.map_eq_some_iff.mp h
      obtain ⟨body, rest, rfl, rfl, hbody, hfirst⟩ := ih htail
      refine ⟨c :: body, rest, rfl, rfl, hbody, ?_⟩
      rintro (_ | ⟨d, front⟩) back heq
      · rw [not_and, Bool.not_eq_false] at hmark
        exact hmark (List.cons.inj heq).1
      · obtain ⟨rfl, rfl⟩ := List.cons.inj heq
        exact hfirst front back rfl

/-- The rules of the scanner cut off what the lexical grammar does. -/
theorem Rule.cutOff (h : Rule allowed c cs lexeme) (hbroken : ∀ fault, lexeme ≠ .broken fault) :
    CutOff (c :: cs) lexeme := by
  obtain ⟨rule, hmem, hkind⟩ := h.opening_mem
  have hlongest : ∀ rule, lexeme.opening ∈ rule.language →
      LongestMatch rule lexeme.opening (c :: cs) := fun rule => h.longestMatch
  have hmatch := hlongest rule hmem
  cases h with
  | blanks hc =>
    rw [opening_blanks hc] at hmatch
    refine .blank hmatch hkind ?_
    rintro rfl
    obtain ⟨rfl, -⟩ := List.cons.inj hmatch.mem
    exact absurd hc (by decide)
  | lineComment =>
    rw [opening_blank (by simp)] at hmatch
    refine .blank hmatch hkind ?_
    rintro rfl
    exact absurd (List.cons.inj (List.cons.inj hmatch.mem).2).1 (by decide)
  | blockComment hclosed =>
    obtain ⟨body, rest, rfl, rfl, hfirst⟩ := comment_eq_some.mp hclosed
    have htext : '/' :: '*' :: (body ++ ['*', '/'] ++ rest)
        = '/' :: '*' :: (body ++ '*' :: '/' :: rest) := by simp
    exact .comment (hlongest .openComment rfl) htext hfirst
  | template hclosed =>
    rw [template_eq_upToMark] at hclosed
    obtain ⟨body, rest, rfl, rfl, hbody, hfirst⟩ := upToMark_eq_some hclosed
    exact .template (hlongest .openTemplate rfl) rfl hbody hfirst
  | regex _ _ _ hclosed =>
    obtain ⟨rest, rfl, -⟩ := regex_spec hclosed
    exact .regex (hlongest (.mark .slash) ⟨rfl, List.cons_ne_nil _ _⟩) rfl
  | mark hmark =>
    obtain ⟨htemplate, hregex⟩ := punctuation_kind_ne hmark
    rw [opening_token htemplate hregex] at hmatch
    rw [openingKind_token hregex] at hkind
    refine .token hmatch hkind ?_
    rintro rfl
    exact htemplate (Option.some.inj hkind).symm
  | word _ | number _ | string _ _ | slash _ _ _ | ellipsis _ | fraction _ _ | dot _ _ | arrow _
  | equals _ =>
    refine .token hmatch hkind ?_
    rintro rfl
    cases hkind

end Match

end Lexeme

namespace Token

/-! ## All lexemes of a source -/

/-- The tokens among lexemes that begin at `offset`. -/
def ofLexemes : (offset : Nat) → List Lexeme → List Token
  | _, [] => []
  | offset, .token kind text :: lexemes =>
    ⟨kind, String.ofList text, offset⟩ :: ofLexemes (offset + byteLength text) lexemes
  | offset, lexeme :: lexemes => ofLexemes (offset + byteLength lexeme.text) lexemes

/-- Each of the lexemes is what the lexical grammar cuts off at its place. -/
def AllCutOff (lexemes : List Lexeme) : Prop :=
  ∀ before lexeme after, lexemes = before ++ lexeme :: after →
    Lexeme.CutOff ((lexeme :: after).flatMap Lexeme.text) lexeme

variable {previous : Option Token} {offset : Nat} {cs : List Char} {tokens : List Token}

theorem AllCutOff.cons {lexeme : Lexeme} {lexemes : List Lexeme}
    (hfirst : Lexeme.CutOff ((lexeme :: lexemes).flatMap Lexeme.text) lexeme)
    (h : AllCutOff lexemes) : AllCutOff (lexeme :: lexemes) := by
  rintro (_ | ⟨first, before⟩) found after heq
  · obtain ⟨rfl, rfl⟩ := List.cons.inj heq
    exact hfirst
  · exact h before found after (List.cons.inj heq).2

theorem Scans.exists_lexemes (h : Scans previous offset cs tokens) :
    ∃ lexemes : List Lexeme, cs = lexemes.flatMap Lexeme.text ∧
      tokens = ofLexemes offset lexemes ∧ AllCutOff lexemes := by
  induction h with
  | done => exact ⟨[], rfl, rfl, fun before _ _ heq => absurd heq (by simp)⟩
  | @blank _ _ c tail _ _ hrule _ ih =>
    obtain ⟨lexemes, rfl, rfl, hall⟩ := ih
    refine ⟨.blank (c :: tail) :: lexemes, rfl, rfl, .cons ?_ hall⟩
    exact hrule.cutOff (Lexeme.blank_ne_broken _)
  | @token _ _ kind c tail _ _ hrule _ ih =>
    obtain ⟨lexemes, rfl, rfl, hall⟩ := ih
    refine ⟨.token kind (c :: tail) :: lexemes, rfl, rfl, .cons ?_ hall⟩
    exact hrule.cutOff (Lexeme.token_ne_broken _ _)

/-- A source that can be scanned is a sequence of lexemes whose tokens are those that are found, and
each lexeme is what the lexical grammar cuts off in front of the rest: the longest match of any
rule, and if that opens a comment or a template, all of the text through the mark that closes it
first. -/
theorem exists_lexemes_of_scan {text : List Char} (h : scan text = .ok tokens) :
    ∃ lexemes : List Lexeme, text = lexemes.flatMap Lexeme.text ∧ tokens = ofLexemes 0 lexemes ∧
      ∀ before lexeme after, lexemes = before ++ lexeme :: after →
        Lexeme.CutOff ((lexeme :: after).flatMap Lexeme.text) lexeme :=
  (scanFrom_eq_ok.mp (scan_eq_ok.mp h)).exists_lexemes

/-- Nearly every lexeme of this text has a shorter match of another rule at its place, or text
behind it that only nearly goes on with it. -/
theorem exists_lexemes_of_scan_example :
    ∃ text tokens, text = "1..2 0x_e+1e+x...=>=/*/ **/'\\''`\\``_.5.e".toList ∧
      scan text = .ok tokens ∧ tokens.map (fun t => (t.kind, t.text)) =
        [(.number, "1."), (.number, ".2"), (.number, "0x_e"), (.plus, "+"), (.number, "1"),
          (.identifier, "e"), (.plus, "+"), (.identifier, "x"), (.ellipsis, "..."), (.arrow, "=>"),
          (.equals, "="), (.string, "'\\''"), (.template, "`\\``"), (.identifier, "_"),
          (.number, ".5"), (.dot, "."), (.identifier, "e")] ∧
      ∃ lexemes : List Lexeme, text = lexemes.flatMap Lexeme.text ∧ tokens = ofLexemes 0 lexemes ∧
        ∀ before lexeme after, lexemes = before ++ lexeme :: after →
          Lexeme.CutOff ((lexeme :: after).flatMap Lexeme.text) lexeme := by
  generalize htext : "1..2 0x_e+1e+x...=>=/*/ **/'\\''`\\``_.5.e".toList = text
  have htokens : (scan text).map (fun tokens => tokens.map fun t => (t.kind, t.text))
      = .ok [(.number, "1."), (.number, ".2"), (.number, "0x_e"), (.plus, "+"), (.number, "1"),
          (.identifier, "e"), (.plus, "+"), (.identifier, "x"), (.ellipsis, "..."), (.arrow, "=>"),
          (.equals, "="), (.string, "'\\''"), (.template, "`\\``"), (.identifier, "_"),
          (.number, ".5"), (.dot, "."), (.identifier, "e")] := by
    subst htext
    decide +kernel
  cases hscan : scan text with
  | error e =>
    rw [hscan] at htokens
    cases htokens
  | ok tokens =>
    rw [hscan] at htokens
    exact ⟨text, tokens, rfl, hscan, Except.ok.inj htokens, exists_lexemes_of_scan hscan⟩

end Token

end AliasCheck
