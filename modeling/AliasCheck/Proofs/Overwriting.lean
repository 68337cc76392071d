import AliasCheck.Proofs.Layout

/-!
# What overwriting leaves

Overwriting library declarations puts spaces in the place of code, so a text without its marks is
left as it is, and behind a text that is left there stands a space at most. A line remains a line,
and a block comment remains one as long as its end is not overwritten. Tokens that come before what
is overwritten are still the same, regular expressions among them: spaces do not close any.
-/

namespace AliasCheck

namespace Blanking

/-- What is left of the line at the beginning of a text. -/
def line (cs : List Char) : List Char := cs.takeWhile (· ≠ '\n')

variable {inside : Bool} {u v cs : List Char}

theorem byteLength_spaces (c : Char) : byteLength (spaces c) = c.utf8Size := by
  have hrep : ∀ n, byteLength (List.replicate n ' ') = n := by
    intro n
    induction n with
    | zero => rfl
    | succ n ih =>
      rw [List.replicate_succ, byteLength_cons, ih, Nat.add_comm]
      rfl
  exact hrep _

theorem spaces_cons (c : Char) : ∃ n, spaces c = ' ' :: List.replicate n ' ' := by
  obtain ⟨n, hn⟩ := Nat.exists_eq_succ_of_ne_zero (Nat.ne_of_gt c.utf8Size_pos)
  exact ⟨n, by rw [spaces, hn, List.replicate_succ]⟩

/-- A mark begins with its first letter. -/
theorem toLower_of_startsWithMark {c : Char} (h : startsWithMark (c :: cs) = true) :
    c.toLower = 'd' := by
  obtain ⟨rest, hrest⟩ := startsWithMark_eq_true.mp h
  exact (List.cons.inj hrest).1.symm

theorem noMark_of_toLower {c : Char} (h : c.toLower ≠ 'd') : startsWithMark (c :: cs) = false :=
  Bool.eq_false_iff.mpr fun hmark => h (toLower_of_startsWithMark hmark)

theorem noMark_slash (cs : List Char) : startsWithMark ('/' :: cs) = false :=
  noMark_of_toLower (by decide)

theorem noMark_star (cs : List Char) : startsWithMark ('*' :: cs) = false :=
  noMark_of_toLower (by decide)

theorem noMark_of_isBlank {c : Char} (hc : Lexeme.isBlank c = true) :
    startsWithMark (c :: cs) = false := by
  refine noMark_of_toLower fun hfirst => ?_
  have hother : Lexeme.isBlank c = false :=
    Lexeme.isBlank_eq_false (p := fun b => b.toLower == 'd') (by decide) (beq_iff_eq.mpr hfirst)
  rw [hc] at hother
  cases hother

theorem blank_of_mark {c : Char} (h : startsWithMark (c :: cs) = true) :
    blank inside (c :: cs) = spaces c ++ blank true cs := by
  have hline : c ≠ '\n' := by
    rintro rfl
    exact absurd (toLower_of_startsWithMark h) (by decide)
  rw [blank, if_neg hline, h, Bool.or_true, if_pos rfl]

theorem blank_of_noMark {c : Char} (h : startsWithMark (c :: cs) = false) :
    blank false (c :: cs) = c :: blank false cs := by
  rw [blank, h, Bool.or_false, if_neg Bool.false_ne_true, ite_self]

theorem exists_mark (h : hasMark cs = true) : ∃ a b, cs = a ++ b ∧ startsWithMark b = true := by
  induction cs with
  | nil => cases h
  | cons c cs ih =>
    rcases Bool.or_eq_true_iff.mp h with hfirst | hlater
    · exact ⟨[], c :: cs, rfl, hfirst⟩
    · obtain ⟨a, b, rfl, hb⟩ := ih hlater
      exact ⟨c :: a, b, rfl, hb⟩

theorem startsWithMark_append_of_mark (h : startsWithMark u = true) (v : List Char) :
    startsWithMark (u ++ v) = true := by
  rw [startsWithMark_eq_true] at h ⊢
  rw [List.map_append]
  exact h.trans (List.prefix_append _ _)

/-- No mark goes on behind the end of its line. -/
theorem hasMark_append_newline (hu : hasMark u = false) (hv : hasMark v = false) :
    hasMark (u ++ '\n' :: v) = false := by
  induction u with
  | nil =>
    have hline : startsWithMark ('\n' :: v) = false := noMark_of_toLower (by decide)
    rw [List.nil_append, hasMark, hline, hv]
    rfl
  | cons c u ih =>
    rw [hasMark, Bool.or_eq_false_iff] at hu
    rw [List.cons_append, hasMark, ← List.cons_append, startsWithMark_append, hu.1, ih hu.2]
    rfl

theorem blank_append_of_noMark
    (h : ∀ a b, u = a ++ b → b ≠ [] → startsWithMark (b ++ v) = false) :
    blank false (u ++ v) = u ++ blank false v := by
  induction u with
  | nil => rfl
  | cons c u ih =>
    have hfirst := h [] (c :: u) rfl (List.cons_ne_nil c u)
    have hrest := ih fun a b hab => h (c :: a) b (by rw [hab, List.cons_append])
    rw [List.cons_append] at hfirst ⊢
    rw [blank_of_noMark hfirst, hrest, List.cons_append]

/-- The text up to the first mark is left as it is, and behind it stands a space. -/
theorem blank_first_mark (cs : List Char) : blank false cs = cs ∨
    ∃ u rest more, cs = u ++ rest ∧ blank false cs = u ++ ' ' :: more := by
  induction cs with
  | nil => exact .inl rfl
  | cons c cs ih =>
    cases hmark : startsWithMark (c :: cs) with
    | true =>
      obtain ⟨n, hn⟩ := spaces_cons c
      refine .inr ⟨[], c :: cs, List.replicate n ' ' ++ blank true cs, rfl, ?_⟩
      rw [blank_of_mark hmark, hn]
      rfl
    | false =>
      rw [blank_of_noMark hmark]
      rcases ih with ih | ⟨u, rest, more, hcs, hblank⟩
      · exact .inl (by rw [ih])
      · exact .inr ⟨c :: u, rest, more, congrArg (c :: ·) hcs, congrArg (c :: ·) hblank⟩

/-- Blanking puts no character other than a space in front of a text. -/
theorem head?_of_blank {d : Char} (hd : d ≠ ' ') (h : (blank inside cs).head? = some d) :
    cs.head? = some d := by
  cases cs with
  | nil => cases h
  | cons c cs =>
    rw [blank] at h
    split at h
    · exact h
    · split at h
      · obtain ⟨n, hn⟩ := spaces_cons c
        rw [hn] at h
        exact absurd (Option.some.inj h).symm hd
      · exact h

/-! ## Regular expressions -/

theorem regex_replicate {n : Nat} (h : ∀ escaped inClass, Lexeme.regex escaped inClass cs = none)
    (escaped inClass : Bool) :
    Lexeme.regex escaped inClass (List.replicate n ' ' ++ cs) = none := by
  induction n generalizing escaped inClass with
  | zero => exact h escaped inClass
  | succ n ih =>
    rw [List.replicate_succ, List.cons_append, Lexeme.regex_cons]
    cases escaped <;> simp [Lexeme.regexStep, ih]

theorem regex_blank_inside (cs : List Char) (escaped inClass : Bool) :
    Lexeme.regex escaped inClass (blank true cs) = none := by
  induction cs generalizing escaped inClass with
  | nil => rfl
  | cons c cs ih =>
    rw [blank]
    by_cases hline : c = '\n'
    · rw [if_pos hline, Lexeme.regex_cons, Lexeme.regexStep, if_pos (.inl hline)]
    · rw [if_neg hline, Bool.true_or, if_pos rfl]
      exact regex_replicate ih escaped inClass

/-- Blanking closes no regular expression. -/
theorem regex_blank {escaped inClass : Bool} (h : Lexeme.regex escaped inClass cs = none) :
    Lexeme.regex escaped inClass (blank false cs) = none := by
  induction cs generalizing escaped inClass with
  | nil => rfl
  | cons c cs ih =>
    cases hmark : startsWithMark (c :: cs) with
    | true =>
      rw [blank_of_mark hmark]
      exact regex_replicate (regex_blank_inside cs) escaped inClass
    | false =>
      rw [blank_of_noMark hmark]
      exact Lexeme.regex_cons_eq_none_of h fun _ _ _ => ih

/-! ## Comments -/

theorem blank_line (hu : '\n' ∉ u) (hv : ∀ d, v.head? = some d → d = '\n') (inside : Bool) :
    ∃ u', '\n' ∉ u' ∧ byteLength u' = byteLength u ∧
      blank inside (u ++ v) = u' ++ blank false v := by
  induction u generalizing inside with
  | nil =>
    refine ⟨[], List.not_mem_nil, rfl, ?_⟩
    cases v with
    | nil => rfl
    | cons d v =>
      cases hv d rfl
      rfl
  | cons c u ih =>
    rw [List.mem_cons, not_or] at hu
    by_cases hmark : (inside || startsWithMark (c :: (u ++ v))) = true
    · obtain ⟨u', hline, hlen, hblank⟩ := ih hu.2 true
      refine ⟨spaces c ++ u', ?_, ?_, ?_⟩
      · rw [List.mem_append, not_or]
        refine ⟨fun hmem => ?_, hline⟩
        exact absurd (List.eq_of_mem_replicate hmem) (by decide)
      · rw [byteLength_append, byteLength_spaces, hlen, byteLength_cons]
      · rw [List.cons_append, blank, if_neg (Ne.symm hu.1), if_pos hmark, hblank, List.append_assoc]
    · obtain ⟨u', hline, hlen, hblank⟩ := ih hu.2 false
      refine ⟨c :: u', ?_, ?_, ?_⟩
      · rw [List.mem_cons, not_or]
        exact ⟨hu.1, hline⟩
      · rw [byteLength_cons, byteLength_cons, hlen]
      · rw [List.cons_append, blank, if_neg (Ne.symm hu.1), if_neg hmark, hblank, List.cons_append]

theorem not_infix_spaces (h : ¬ ['*', '/'] <:+: cs) (c : Char) :
    ¬ ['*', '/'] <:+: spaces c ++ cs := by
  have hrep : ∀ n, ¬ ['*', '/'] <:+: List.replicate n ' ' ++ cs := by
    intro n
    induction n with
    | zero => exact h
    | succ n ih =>
      rw [List.replicate_succ, List.cons_append, List.infix_cons_iff, not_or]
      refine ⟨fun hfirst => ?_, ih⟩
      exact absurd (List.cons_prefix_cons.mp hfirst).1 (by decide)
  exact hrep _

theorem slash_prefix_iff (body rest : List Char) :
    ['/'] <+: body ++ ['*'] ↔ (body ++ '*' :: rest).head? = some '/' := by
  cases body with
  | nil => simp
  | cons d body => simp [eq_comm]

/-- A closed comment remains one if its end is not overwritten. -/
theorem blank_comment (inside : Bool) {body rest : List Char}
    (hbody : ¬ ['*', '/'] <:+: body ++ ['*'])
    (hinside : inside = true → ¬ ['*', '/'] <:+: line (body ++ '*' :: '/' :: rest))
    (hmarks : ∀ a b, body = a ++ b → startsWithMark (b ++ '*' :: '/' :: rest) = true →
      ¬ ['*', '/'] <:+: line (b ++ '*' :: '/' :: rest)) :
    ∃ body', ¬ ['*', '/'] <:+: body' ++ ['*'] ∧ byteLength body' = byteLength body ∧
      blank inside (body ++ '*' :: '/' :: rest) = body' ++ '*' :: '/' :: blank false rest := by
  induction body generalizing inside with
  | nil =>
    have houtside : inside = false := by
      cases inside with
      | false => rfl
      | true => exact absurd ⟨[], line rest, rfl⟩ (hinside rfl)
    subst houtside
    refine ⟨[], by decide, rfl, ?_⟩
    rw [List.nil_append, blank_of_noMark (noMark_star _), blank_of_noMark (noMark_slash _)]
    rfl
  | cons c body ih =>
    rw [List.cons_append, List.infix_cons_iff, not_or] at hbody
    have hlater := fun a b hab => hmarks (c :: a) b (congrArg (c :: ·) hab)
    have houtside : false = true → ¬ ['*', '/'] <:+: line (body ++ '*' :: '/' :: rest) :=
      fun h => absurd h Bool.false_ne_true
    rw [List.cons_append, blank]
    by_cases hline : c = '\n'
    · obtain ⟨body', hclose, hlen, hblank⟩ := ih false hbody.2 houtside hlater
      refine ⟨c :: body', ?_, ?_, ?_⟩
      · rw [List.cons_append, List.infix_cons_iff, not_or]
        refine ⟨fun hfirst => ?_, hclose⟩
        rw [hline] at hfirst
        exact absurd (List.cons_prefix_cons.mp hfirst).1 (by decide)
      · rw [byteLength_cons, byteLength_cons, hlen]
      · rw [if_pos hline, hblank, List.cons_append]
    rw [if_neg hline]
    by_cases hmark : (inside || startsWithMark (c :: (body ++ '*' :: '/' :: rest))) = true
    · have hrest : ¬ ['*', '/'] <:+: line (body ++ '*' :: '/' :: rest) := by
        have hthis : ¬ ['*', '/'] <:+: line (c :: (body ++ '*' :: '/' :: rest)) := by
          rcases Bool.or_eq_true_iff.mp hmark with h | h
          · exact hinside h
          · exact hmarks [] (c :: body) rfl h
        rw [line, List.takeWhile_cons_of_pos (by simpa using hline)] at hthis
        exact fun hinfix => hthis (List.infix_cons hinfix)
      obtain ⟨body', hclose, hlen, hblank⟩ := ih true hbody.2 (fun _ => hrest) hlater
      refine ⟨spaces c ++ body', ?_, ?_, ?_⟩
      · rw [List.append_assoc]
        exact not_infix_spaces hclose c
      · rw [byteLength_append, byteLength_spaces, hlen, byteLength_cons]
      · rw [if_pos hmark, hblank, List.append_assoc]
    · obtain ⟨body', hclose, hlen, hblank⟩ := ih false hbody.2 houtside hlater
      refine ⟨c :: body', ?_, ?_, ?_⟩
      · rw [List.cons_append, List.infix_cons_iff, not_or]
        refine ⟨fun hfirst => hbody.1 ?_, hclose⟩
        -- The slash behind the star is no space, so it stood there before.
        obtain ⟨hstar, hslash⟩ := List.cons_prefix_cons.mp hfirst
        have hhead := (slash_prefix_iff body' ('/' :: blank false rest)).mp hslash
        rw [← hblank] at hhead
        have hslash' := (slash_prefix_iff body ('/' :: rest)).mpr (head?_of_blank (by decide) hhead)
        exact List.cons_prefix_cons.mpr ⟨hstar, hslash'⟩
      · rw [byteLength_cons, byteLength_cons, hlen]
      · rw [if_neg hmark, hblank, List.cons_append]

end Blanking

/-! ## Tokens -/

namespace Lexeme

variable {allowed : Bool} {kind : Token.Kind} {c : Char} {text tail rest : List Char}

/-- A blank behind a text leaves the token at its beginning as it is, unless it is a slash that a
regular expression might begin with. -/
theorem Rule.append_blank {u : List Char} {d : Char} (h : Rule allowed c u (.token kind text))
    (hslash : kind ≠ .slash) (hd : isBlank d = true) (more : List Char) :
    Rule allowed c (u ++ d :: more) (.token kind text) := by
  by_cases hregex : kind = .regex
  · subst hregex
    have hhead : ∀ e, isBlank e = false → u.head? ≠ some e → (u ++ d :: more).head? ≠ some e :=
      fun e he hne => head?_append_ne hne (ne_of_isBlank hd he) more
    cases h with
    | regex hslash hstar hallowed h =>
      obtain ⟨rest, rfl, hrest, hagain⟩ := regex_spec h
      refine .regex (hhead _ rfl hslash) (hhead _ rfl hstar) hallowed ?_
      rw [List.append_assoc]
      refine hagain _ fun e he => ?_
      cases rest with
      | nil =>
        cases he
        exact eq_false_of_isBlank (by decide) hd
      | cons e rest => exact hrest _ he
    | mark h => exact absurd rfl (punctuation_kind h).2.2.2.2
  · exact h.append (Token.Kind.fits_blank hd hslash hregex) more

/-- What is overwritten behind a token does not change it. -/
theorem Rule.blank (h : Rule allowed c (tail ++ rest) (.token kind (c :: tail))) :
    Rule allowed c (tail ++ Blanking.blank false rest) (.token kind (c :: tail)) := by
  by_cases hslash : kind = .slash
  · subst hslash
    refine h.exchange_slash (fun d hd hne hhead => hne ?_) Blanking.regex_blank
    exact Blanking.head?_of_blank (by rintro rfl; cases hd) hhead
  · rcases Blanking.blank_first_mark rest with hsame | ⟨u, marked, more, rfl, hblank⟩
    · rwa [hsame]
    · rw [hblank, ← List.append_assoc]
      rw [← List.append_assoc] at h
      refine (h.cut ?_).append_blank hslash (by decide) more
      rw [List.length_cons, List.length_append]
      omega

end Lexeme

end AliasCheck
