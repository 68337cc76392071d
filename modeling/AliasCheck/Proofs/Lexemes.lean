import AliasCheck.Proofs.LexemeParts

/-!
# Where lexemes end

A lexeme is a beginning of the text, and it is as long as it can be. `Lexeme.Rule` lists the rules
by which one is cut off, and everything about single lexemes is shown rule by rule. So a token is
the same in every text that has been cut off behind it, and it is the same in a longer text if the
next character fits: `Token.Kind.Fits` says for each kind of token which characters leave it as it
is. A line feed leaves every lexeme as it is that is not blank itself.
-/

namespace AliasCheck

/-- A token of this kind stays what it is when `d` comes next. -/
def Token.Kind.Fits (kind : Token.Kind) (d : Char) : Prop :=
  match kind with
  | .identifier => Lexeme.isIdentifierPart d = false
  | .number => Lexeme.EndsWord d
  | .dot => d ≠ '.' ∧ d.isDigit = false
  | .equals => d ≠ '>'
  | .slash | .regex => d = '\n'
  | _ => True

/-- A line feed fits behind every token. -/
theorem Token.Kind.fits_newline (kind : Token.Kind) : kind.Fits '\n' := by
  have hword : Lexeme.EndsWord '\n' := by
    unfold Lexeme.EndsWord
    decide
  cases kind
  case identifier => exact hword.1
  case number => exact hword
  all_goals
    unfold Token.Kind.Fits
    decide

namespace Lexeme

/-! ## The rules -/

/-- A lexeme is cut off at the beginning of the text `c :: cs` by one of these rules. -/
inductive Rule (allowed : Bool) : (c : Char) → (cs : List Char) → Lexeme → Prop where
  | blanks {c : Char} {cs : List Char} (hc : isBlank c = true) :
      Rule allowed c cs (.blank (c :: cs.takeWhile isBlank))
  | lineComment {cs : List Char} :
      Rule allowed '/' ('/' :: cs) (.blank ('/' :: '/' :: cs.takeWhile (· ≠ '\n')))
  | blockComment {cs text : List Char} (h : comment cs = some text) :
      Rule allowed '/' ('*' :: cs) (.blank ('/' :: '*' :: text))
  | word {c : Char} {cs : List Char} (hc : isIdentifierStart c = true) :
      Rule allowed c cs (.token .identifier (c :: cs.takeWhile isIdentifierPart))
  | number {c : Char} {cs : List Char} (hc : c.isDigit = true) :
      Rule allowed c cs (.token .number (number (c :: cs)))
  | string {quote : Char} {cs text : List Char} (hquote : quote = '"' ∨ quote = '\'')
      (h : quoted quote false cs = some text) :
      Rule allowed quote cs (.token .string (quote :: text))
  | template {cs text : List Char} (h : template false cs = some text) :
      Rule allowed '`' cs (.token .template ('`' :: text))
  | regex {cs text : List Char} (hslash : cs.head? ≠ some '/') (hstar : cs.head? ≠ some '*')
      (hallowed : allowed = true) (h : regex false false cs = some text) :
      Rule allowed '/' cs (.token .regex ('/' :: text))
  | slash {cs : List Char} (hslash : cs.head? ≠ some '/') (hstar : cs.head? ≠ some '*')
      (h : allowed = true → Lexeme.regex false false cs = none) :
      Rule allowed '/' cs (.token .slash ['/'])
  | ellipsis {cs : List Char} (h : cs.take 2 = ['.', '.']) :
      Rule allowed '.' cs (.token .ellipsis ['.', '.', '.'])
  | fraction {cs : List Char} (h : cs.take 2 ≠ ['.', '.']) (hdigits : pointDigits cs ≠ []) :
      Rule allowed '.' cs (.token .number ('.' :: pointDigits cs))
  | dot {cs : List Char} (h : cs.take 2 ≠ ['.', '.']) (hdigits : pointDigits cs = []) :
      Rule allowed '.' cs (.token .dot ['.'])
  | arrow {cs : List Char} (h : cs.head? = some '>') :
      Rule allowed '=' cs (.token .arrow ['=', '>'])
  | equals {cs : List Char} (h : cs.head? ≠ some '>') : Rule allowed '=' cs (.token .equals ['='])
  | mark {c : Char} {cs : List Char} {kind : Token.Kind} (h : punctuation c = some kind) :
      Rule allowed c cs (.token kind [c])

/-- The text of a lexeme. -/
def text : Lexeme → List Char
  | blank text => text
  | token _ text => text
  | broken _ => []

section Rules

variable {allowed : Bool} {kind : Token.Kind} {c d : Char} {cs text : List Char} {lexeme : Lexeme}

/-! ## Reading is cutting off by a rule -/

theorem read_blank (hc : isBlank c = true) (allowed : Bool) (cs : List Char) :
    read allowed c cs = .blank (c :: cs.takeWhile isBlank) := by
  unfold read
  exact if_pos hc

theorem pointDigits_eq_nil : pointDigits cs = [] ↔ cs.takeWhile Char.isDigit = [] := by
  unfold pointDigits
  dsimp only
  split
  · rename_i h
    exact ⟨fun _ => h, fun _ => rfl⟩
  · rename_i h
    exact ⟨fun hnil => absurd (List.append_eq_nil_iff.mp hnil).1 h, fun hnil => absurd hnil h⟩

theorem afterPoint_eq (cs : List Char) :
    afterPoint cs = if cs.take 2 = ['.', '.'] then .token .ellipsis ['.', '.', '.']
      else if pointDigits cs = [] then .token .dot ['.']
      else .token .number ('.' :: pointDigits cs) := by
  unfold afterPoint
  split
  · rfl
  · rename_i hne
    have htake : cs.take 2 ≠ ['.', '.'] := by
      intro htake
      match cs, htake with
      | c :: e :: cs, htake =>
        simp only [List.take_succ_cons, List.take_zero, List.cons.injEq, and_true] at htake
        exact hne cs (by rw [htake.1, htake.2])
    rw [if_neg htake]

theorem afterEquals_eq (cs : List Char) : afterEquals cs
    = if cs.head? = some '>' then .token .arrow ['=', '>'] else .token .equals ['='] := by
  cases cs with
  | nil => rfl
  | cons d cs =>
    by_cases hd : d = '>'
    · subst hd
      rfl
    · unfold afterEquals
      simp [hd]

/-- What a slash begins that is followed by neither a slash nor a star. -/
theorem afterSlash_eq (h : cs.head? ≠ some '/') (h' : cs.head? ≠ some '*') :
    afterSlash allowed cs = match if allowed then regex false false cs else none with
      | some text => .token .regex ('/' :: text)
      | none => .token .slash ['/'] := by
  unfold afterSlash
  split
  · exact absurd rfl h
  · exact absurd rfl h'
  · rfl

theorem isBlank_eq_false {p : Char → Bool} (hp : [' ', '\t', '\r', '\n', '\x0c'].any p = false)
    (hc : p c = true) : isBlank c = false := by
  have hmem : c ∉ [' ', '\t', '\r', '\n', '\x0c'] := fun hmem => List.any_eq_false.mp hp c hmem hc
  simp only [List.mem_cons, List.not_mem_nil, or_false, not_or] at hmem
  simp [isBlank, hmem]

theorem isDigit_of_isIdentifierStart (h : isIdentifierStart c = true) :
    c.isDigit = false := by
  rw [Bool.eq_false_iff]
  intro hdigit
  have hrange : 48 ≤ c.val.toNat ∧ c.val.toNat ≤ 57 := by
    have hparts := Bool.and_eq_true_iff.mp hdigit
    exact ⟨of_decide_eq_true hparts.1, of_decide_eq_true hparts.2⟩
  simp only [isIdentifierStart, Bool.or_eq_true, decide_eq_true_eq] at h
  rcases h with ((halpha | rfl) | rfl) | hwide
  · rcases Bool.or_eq_true_iff.mp halpha with hupper | hlower
    · have hbounds : 65 ≤ c.val.toNat ∧ c.val.toNat ≤ 90 := of_decide_eq_true hupper
      omega
    · have hbound : 97 ≤ c.val.toNat := of_decide_eq_true (Bool.and_eq_true_iff.mp hlower).1
      omega
  · exact absurd hdigit (by decide)
  · exact absurd hdigit (by decide)
  · have hnat : c.toNat = c.val.toNat := rfl
    omega

theorem blank_ne_broken (text : List Char) (fault : SyntaxFault) : blank text ≠ broken fault := by
  intro h
  cases h

theorem token_ne_broken (kind : Token.Kind) (text : List Char) (fault : SyntaxFault) :
    token kind text ≠ broken fault := by
  intro h
  cases h

theorem closed_cases {fault : SyntaxFault} {make : List Char → Lexeme} {first : List Char}
    {body : Option (List Char)} (h : closed fault make first body = lexeme)
    (hbroken : ∀ fault, lexeme ≠ .broken fault) :
    ∃ rest, body = some rest ∧ lexeme = make (first ++ rest) := by
  subst h
  cases body with
  | none => exact absurd rfl (hbroken fault)
  | some rest => exact ⟨rest, rfl, rfl⟩

theorem rule_of_read (h : read allowed c cs = lexeme) (hbroken : ∀ fault, lexeme ≠ .broken fault) :
    Rule allowed c cs lexeme := by
  unfold read at h
  split at h
  · rename_i hblank
    subst h
    exact .blanks hblank
  split at h
  · rename_i hstart
    subst h
    exact .word hstart
  split at h
  · rename_i hdigit
    subst h
    exact .number hdigit
  split at h
  · obtain ⟨text, htext, rfl⟩ := closed_cases h hbroken
    exact .string (.inl rfl) htext
  · obtain ⟨text, htext, rfl⟩ := closed_cases h hbroken
    exact .string (.inr rfl) htext
  · obtain ⟨text, htext, rfl⟩ := closed_cases h hbroken
    exact .template htext
  · by_cases hslash : cs.head? = some '/'
    · obtain ⟨rest, rfl⟩ := List.head?_eq_some_iff.mp hslash
      subst h
      exact .lineComment
    by_cases hstar : cs.head? = some '*'
    · obtain ⟨rest, rfl⟩ := List.head?_eq_some_iff.mp hstar
      obtain ⟨text, htext, rfl⟩ := closed_cases h hbroken
      exact .blockComment htext
    rw [afterSlash_eq hslash hstar] at h
    subst h
    cases htext : if allowed = true then regex false false cs else none with
    | none =>
      refine .slash hslash hstar fun hallowed => ?_
      rwa [if_pos hallowed] at htext
    | some text =>
      rw [Option.ite_none_right_eq_some] at htext
      exact .regex hslash hstar htext.1 htext.2
  · rw [afterPoint_eq] at h
    subst h
    by_cases htwo : cs.take 2 = ['.', '.']
    · rw [if_pos htwo]
      exact .ellipsis htwo
    rw [if_neg htwo]
    by_cases hdigits : pointDigits cs = []
    · rw [if_pos hdigits]
      exact .dot htwo hdigits
    · rw [if_neg hdigits]
      exact .fraction htwo hdigits
  · rw [afterEquals_eq] at h
    subst h
    by_cases hangle : cs.head? = some '>'
    · rw [if_pos hangle]
      exact .arrow hangle
    · rw [if_neg hangle]
      exact .equals hangle
  · split at h
    · rename_i hkind
      subst h
      exact .mark hkind
    · exact absurd h.symm (hbroken _)

/-- Rules do not overlap, so what a rule cuts off is read. -/
theorem Rule.read_eq (h : Rule allowed c cs lexeme) : read allowed c cs = lexeme := by
  cases h with
  | blanks hc => exact read_blank hc allowed cs
  | lineComment => rfl
  | blockComment h =>
    change closed .unclosedComment .blank ['/', '*'] (comment _) = _
    rw [h]
    rfl
  | word hc =>
    unfold read
    rw [isBlank_eq_false (by decide) hc, if_neg Bool.false_ne_true, if_pos hc]
  | number hc =>
    have hstart : isIdentifierStart c = false := by
      cases hstart : isIdentifierStart c with
      | false => rfl
      | true =>
        rw [isDigit_of_isIdentifierStart hstart] at hc
        cases hc
    unfold read
    rw [isBlank_eq_false (by decide) hc, hstart, if_neg Bool.false_ne_true,
      if_neg Bool.false_ne_true, if_pos hc]
  | string hquote h =>
    rcases hquote with rfl | rfl
    · change closed (.strayCharacter '"') (.token .string) ['"'] (quoted '"' false cs) = _
      rw [h]
      rfl
    · change closed (.strayCharacter '\'') (.token .string) ['\''] (quoted '\'' false cs) = _
      rw [h]
      rfl
  | template h =>
    change closed .unclosedTemplate (.token .template) ['`'] (Lexeme.template false cs) = _
    rw [h]
    rfl
  | regex hslash hstar hallowed h =>
    change afterSlash allowed cs = _
    rw [afterSlash_eq hslash hstar, if_pos hallowed, h]
  | slash hslash hstar h =>
    change afterSlash allowed cs = _
    rw [afterSlash_eq hslash hstar]
    by_cases hallowed : allowed = true
    · rw [if_pos hallowed, h hallowed]
    · rw [if_neg hallowed]
  | ellipsis h =>
    change afterPoint cs = _
    rw [afterPoint_eq, if_pos h]
  | fraction h hdigits =>
    change afterPoint cs = _
    rw [afterPoint_eq, if_neg h, if_neg hdigits]
  | dot h hdigits =>
    change afterPoint cs = _
    rw [afterPoint_eq, if_neg h, if_pos hdigits]
  | arrow h =>
    change afterEquals cs = _
    rw [afterEquals_eq, if_pos h]
  | equals h =>
    change afterEquals cs = _
    rw [afterEquals_eq, if_neg h]
  | mark h =>
    unfold punctuation at h
    split at h <;> cases h <;> rfl

/-! ## What a rule looks at -/

/-- Characters that are tokens of their own are neither words nor literals nor slashes. -/
theorem punctuation_kind (h : punctuation c = some kind) :
    kind ≠ .identifier ∧ kind ≠ .number ∧ kind ≠ .string ∧ kind ≠ .slash ∧ kind ≠ .regex := by
  unfold punctuation at h
  split at h <;> cases h <;> decide

theorem number_ne_nil (hc : c.isDigit = true) (cs : List Char) : number (c :: cs) ≠ [] := by
  intro hnil
  unfold number at hnil
  dsimp only at hnil
  split at hnil
  · have hdigit : isDigitOrBar c = true := Bool.or_eq_true_iff.mpr (.inl hc)
    simp [decimal, hdigit] at hnil
  · rename_i hdigits
    exact hdigits (List.append_eq_nil_iff.mp hnil).2

/-- A lexeme takes the first character and a beginning of what follows. -/
theorem Rule.front (h : Rule allowed c cs lexeme) :
    ∃ tail rest, lexeme.text = c :: tail ∧ cs = tail ++ rest := by
  have hone : ∀ cs : List Char, ∃ rest, cs = [] ++ rest := fun cs => ⟨cs, rfl⟩
  cases h with
  | blanks _ | word _ => exact ⟨_, _, rfl, List.takeWhile_append_dropWhile.symm⟩
  | lineComment =>
    exact ⟨_, _, rfl, congrArg ('/' :: ·) List.takeWhile_append_dropWhile.symm⟩
  | blockComment h =>
    obtain ⟨body, rest, rfl, rfl, -⟩ := comment_eq_some.mp h
    exact ⟨_, rest, rfl, rfl⟩
  | number hc =>
    obtain ⟨rest, hrest⟩ := takes_number.front (c :: cs)
    have hne := number_ne_nil hc cs
    cases hnumber : Lexeme.number (c :: cs) with
    | nil => exact absurd hnumber hne
    | cons d tail =>
      rw [hnumber] at hrest
      cases hrest
      exact ⟨tail, rest, rfl, rfl⟩
  | string _ h =>
    obtain ⟨rest, rfl, -⟩ := quoted_spec h
    exact ⟨_, rest, rfl, rfl⟩
  | template h =>
    obtain ⟨rest, rfl, -⟩ := template_spec h
    exact ⟨_, rest, rfl, rfl⟩
  | regex _ _ _ h =>
    obtain ⟨rest, rfl, -⟩ := regex_spec h
    exact ⟨_, rest, rfl, rfl⟩
  | ellipsis h => exact ⟨['.', '.'], cs.drop 2, rfl, by rw [← h, List.take_append_drop]⟩
  | fraction _ _ =>
    obtain ⟨rest, hrest⟩ := takes_pointDigits.front cs
    exact ⟨_, rest, rfl, hrest.symm⟩
  | arrow h =>
    obtain ⟨rest, rfl⟩ := List.head?_eq_some_iff.mp h
    exact ⟨['>'], rest, rfl, rfl⟩
  | slash _ _ _ | dot _ _ | equals _ | mark _ => exact ⟨[], cs, rfl, rfl⟩

/-- A text begins with a lexeme that is skipped, with a token, or with none of them. -/
theorem read_cases (allowed : Bool) (c : Char) (cs : List Char) :
    (∃ tail rest, cs = tail ++ rest ∧ Rule allowed c cs (.blank (c :: tail))) ∨
    (∃ kind tail rest, cs = tail ++ rest ∧ Rule allowed c cs (.token kind (c :: tail))) ∨
    ∃ fault, read allowed c cs = .broken fault := by
  cases hread : read allowed c cs with
  | blank text =>
    have hrule := rule_of_read hread (blank_ne_broken text)
    obtain ⟨tail, rest, htext, hcs⟩ := hrule.front
    simp only [Lexeme.text] at htext
    exact .inl ⟨tail, rest, hcs, htext ▸ hrule⟩
  | token kind text =>
    have hrule := rule_of_read hread (token_ne_broken kind text)
    obtain ⟨tail, rest, htext, hcs⟩ := hrule.front
    simp only [Lexeme.text] at htext
    exact .inr (.inl ⟨kind, tail, rest, hcs, htext ▸ hrule⟩)
  | broken fault => exact .inr (.inr ⟨fault, rfl⟩)

theorem prefix_of_append {u v : List Char} (h : text <+: u ++ v) (hlen : text.length ≤ u.length) :
    ∃ rest, u = text ++ rest := by
  obtain ⟨rest, hrest⟩ := List.prefix_of_prefix_length_le h (List.prefix_append u v) hlen
  exact ⟨rest, hrest.symm⟩

/-- A token is the same in a text that has been cut off behind it. -/
theorem Rule.cut {u v : List Char} (h : Rule allowed c (u ++ v) (.token kind text))
    (hlen : text.length ≤ u.length + 1) : Rule allowed c u (.token kind text) := by
  generalize hcs : u ++ v = cs at h
  -- What is not in front of the longer text is not in front of the shorter one.
  have hhead : ∀ d, cs.head? ≠ some d → u.head? ≠ some d := by
    rw [← hcs]
    exact fun d => head?_ne_of_append
  have hpoints : cs.take 2 ≠ ['.', '.'] → u.take 2 ≠ ['.', '.'] := by
    intro hne hu
    have hlen : 2 ≤ u.length := by
      have hlen := congrArg List.length hu
      rw [List.length_take] at hlen
      simp only [List.length_cons, List.length_nil] at hlen
      omega
    rw [← hcs, List.take_append_of_le_length hlen] at hne
    exact hne hu
  cases h with
  | word hc =>
    rw [← hcs] at hlen ⊢
    rw [← (takes_takeWhile isIdentifierPart).cut u v (Nat.le_of_succ_le_succ hlen)]
    exact .word hc
  | number hc =>
    rw [← hcs] at hlen ⊢
    rw [← List.cons_append] at hlen ⊢
    rw [← takes_number.cut (c :: u) v hlen]
    exact .number hc
  | string hquote h =>
    obtain ⟨rest, hrest, hagain⟩ := quoted_spec h
    obtain ⟨rest, rfl⟩ := prefix_of_append (u := u) (v := v) ⟨rest, by rw [hcs, hrest]⟩
      (Nat.le_of_succ_le_succ hlen)
    exact .string hquote (hagain rest)
  | template h =>
    obtain ⟨rest, hrest, hagain⟩ := template_spec h
    obtain ⟨rest, rfl⟩ := prefix_of_append (u := u) (v := v) ⟨rest, by rw [hcs, hrest]⟩
      (Nat.le_of_succ_le_succ hlen)
    exact .template (hagain rest)
  | regex hslash hstar hallowed h =>
    obtain ⟨rest, hrest, hflags, hagain⟩ := regex_spec h
    obtain ⟨more, hmore⟩ := prefix_of_append (u := u) (v := v) ⟨rest, by rw [hcs, hrest]⟩
      (Nat.le_of_succ_le_succ hlen)
    refine .regex (hhead _ hslash) (hhead _ hstar) hallowed ?_
    rw [hmore]
    refine hagain more fun d hd => hflags d ?_
    obtain ⟨more, rfl⟩ := List.head?_eq_some_iff.mp hd
    rw [hrest, hmore, List.append_assoc, List.append_cancel_left_eq] at hcs
    rw [← hcs]
    rfl
  | slash hslash hstar h =>
    refine .slash (hhead _ hslash) (hhead _ hstar) fun hallowed => ?_
    rw [← hcs] at h
    exact regex_eq_none_of_append (h hallowed)
  | ellipsis h =>
    have htwo : 2 ≤ u.length := Nat.le_of_succ_le_succ hlen
    rw [← hcs, List.take_append_of_le_length htwo] at h
    exact .ellipsis h
  | fraction h hdigits =>
    have heq := takes_pointDigits.cut u v (by rw [hcs]; exact Nat.le_of_succ_le_succ hlen)
    rw [hcs] at heq
    rw [← heq] at hdigits ⊢
    exact .fraction (hpoints h) hdigits
  | dot h hdigits =>
    have heq := takes_pointDigits.cut u v (by rw [hcs, hdigits]; exact Nat.zero_le _)
    rw [hcs, hdigits] at heq
    exact .dot (hpoints h) heq
  | arrow h =>
    cases u with
    | nil => exact absurd hlen (by decide)
    | cons e u =>
      rw [← hcs] at h
      exact .arrow h
  | equals h => exact .equals (hhead _ h)
  | mark h => exact .mark h

/-- A blank stretch or a comment is the same in a text that has been cut off behind it. -/
theorem Rule.cut_blank {u v : List Char} (h : Rule allowed c (u ++ v) (.blank text))
    (hlen : text.length ≤ u.length + 1) : Rule allowed c u (.blank text) := by
  generalize hcs : u ++ v = cs at h
  cases h with
  | blanks hc =>
    rw [← hcs] at hlen ⊢
    rw [← (takes_takeWhile isBlank).cut u v (Nat.le_of_succ_le_succ hlen)]
    exact .blanks hc
  | lineComment =>
    cases u with
    | nil => exact absurd hlen (by simp)
    | cons d u =>
      rw [List.cons_append, List.cons.injEq] at hcs
      obtain ⟨rfl, rfl⟩ := hcs
      have hline := Nat.le_of_succ_le_succ (Nat.le_of_succ_le_succ hlen)
      rw [← (takes_takeWhile (· ≠ '\n')).cut u v hline]
      exact .lineComment
  | blockComment h =>
    cases u with
    | nil => exact absurd hlen (by simp)
    | cons d u =>
      rw [List.cons_append, List.cons.injEq] at hcs
      obtain ⟨rfl, rfl⟩ := hcs
      obtain ⟨body, rest, htext, hrest, hbody⟩ := comment_eq_some.mp h
      obtain ⟨more, rfl⟩ := prefix_of_append ⟨rest, hrest.symm⟩
        (Nat.le_of_succ_le_succ (Nat.le_of_succ_le_succ hlen))
      exact .blockComment (comment_eq_some.mpr ⟨body, more, htext, rfl, hbody⟩)

theorem take_two_append (hd : d ≠ '.') (h : cs.take 2 ≠ ['.', '.']) (more : List Char) :
    (cs ++ d :: more).take 2 ≠ ['.', '.'] := by
  match cs, h with
  | [], _ => cases more <;> simp [hd]
  | [_], _ => simp [hd]
  | _ :: _ :: _, h => exact h

/-- A token is the same in a longer text if it fits together with what comes next. -/
theorem Rule.append (h : Rule allowed c cs (.token kind text)) (hd : kind.Fits d)
    (more : List Char) : Rule allowed c (cs ++ d :: more) (.token kind text) := by
  have hhead : ∀ e, d ≠ e → cs.head? ≠ some e → (cs ++ d :: more).head? ≠ some e :=
    fun e hde he => head?_append_ne he hde more
  cases h with
  | word hc =>
    rw [← takeWhile_append_stop hd cs more]
    exact .word hc
  | number hc =>
    rw [← number_append hd (c :: cs) more, List.cons_append]
    exact .number hc
  | string hquote h =>
    obtain ⟨rest, rfl, hagain⟩ := quoted_spec h
    exact .string hquote (by rw [List.append_assoc, hagain])
  | template h =>
    obtain ⟨rest, rfl, hagain⟩ := template_spec h
    exact .template (by rw [List.append_assoc, hagain])
  | regex hslash hstar hallowed h =>
    cases hd
    exact .regex (hhead _ (by decide) hslash) (hhead _ (by decide) hstar) hallowed
      (by rw [regex_append, h])
  | slash hslash hstar h =>
    cases hd
    exact .slash (hhead _ (by decide) hslash) (hhead _ (by decide) hstar)
      fun hallowed => by rw [regex_append, h hallowed]
  | ellipsis h =>
    have htwo : 2 ≤ cs.length := by
      have hlen := congrArg List.length h
      rw [List.length_take] at hlen
      simp only [List.length_cons, List.length_nil] at hlen
      omega
    exact .ellipsis (by rw [List.take_append_of_le_length htwo, h])
  | fraction h hdigits =>
    rw [← pointDigits_append hd cs more] at hdigits ⊢
    exact .fraction (take_two_append hd.2.1 h more) hdigits
  | dot h hdigits =>
    refine .dot (take_two_append hd.1 h more) ?_
    rw [pointDigits_eq_nil, takeWhile_append_stop hd.2]
    exact pointDigits_eq_nil.mp hdigits
  | arrow h =>
    obtain ⟨rest, rfl⟩ := List.head?_eq_some_iff.mp h
    exact .arrow rfl
  | equals h => exact .equals (hhead _ hd h)
  | mark h => exact .mark h

/-- A slash stays one when what stands behind it is exchanged for something that begins no comment
with it and closes no regular expression either. -/
theorem Rule.exchange_slash {tail rest rest' : List Char}
    (h : Rule allowed c (tail ++ rest) (.token .slash (c :: tail)))
    (hhead : ∀ d, isBlank d = false → rest.head? ≠ some d → rest'.head? ≠ some d)
    (hregex : Lexeme.regex false false rest = none → Lexeme.regex false false rest' = none) :
    Rule allowed c (tail ++ rest') (.token .slash (c :: tail)) := by
  generalize hcs : tail ++ rest = cs at h
  generalize htext : c :: tail = text at h
  cases h with
  | slash hnoSlash hnoStar h =>
    cases htext
    subst hcs
    exact .slash (hhead _ rfl hnoSlash) (hhead _ rfl hnoStar) fun hallowed => hregex (h hallowed)
  | mark h => exact absurd rfl (punctuation_kind h).2.2.2.1

/-- A comment that ends at all ends where it is, and a line feed ends every comment to the end of
the line. -/
theorem Rule.append_newline (h : Rule allowed c cs (.blank text)) (hc : isBlank c = false)
    (more : List Char) : Rule allowed c (cs ++ '\n' :: more) (.blank text) := by
  cases h with
  | blanks hblank =>
    rw [hc] at hblank
    cases hblank
  | @lineComment cs =>
    have hline : (cs ++ '\n' :: more).takeWhile (· ≠ '\n') = cs.takeWhile (· ≠ '\n') :=
      takeWhile_append_stop (by decide) cs more
    rw [← hline]
    exact .lineComment
  | blockComment h =>
    obtain ⟨body, rest, rfl, rfl, hbody⟩ := comment_eq_some.mp h
    have hmore := List.append_assoc (body ++ ['*', '/']) rest ('\n' :: more)
    exact .blockComment (comment_eq_some.mpr ⟨body, rest ++ '\n' :: more, rfl, hmore, hbody⟩)

/-- Only for slashes it matters whether a regular expression may stand here. -/
theorem Rule.of_allowed (h : Rule true c cs (.token kind text)) (hslash : kind ≠ .slash)
    (hregex : kind ≠ .regex) (allowed : Bool) : Rule allowed c cs (.token kind text) := by
  cases h with
  | word hc => exact .word hc
  | number hc => exact .number hc
  | string hquote h => exact .string hquote h
  | template h => exact .template h
  | regex _ _ _ _ => exact absurd rfl hregex
  | slash _ _ _ => exact absurd rfl hslash
  | ellipsis h => exact .ellipsis h
  | fraction h hdigits => exact .fraction h hdigits
  | dot h hdigits => exact .dot h hdigits
  | arrow h => exact .arrow h
  | equals h => exact .equals h
  | mark h => exact .mark h

end Rules

end Lexeme
end AliasCheck
