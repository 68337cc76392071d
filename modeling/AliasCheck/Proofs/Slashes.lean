import AliasCheck.Proofs.BrokenText

/-!
# What a slash means

A token that begins with a slash is a division behind the end of an operand. Elsewhere it is a
regular expression if one is closed on its line, and a slash alone if none is. Whether a slash
closes a regular expression is said of the text in front of it, without a scanner
(`Lexeme.ClosesRegex`); the two flags that the scanner carries along are the facts about the text
that it has passed (`Lexeme.escapesNext`, `Lexeme.InClass`), and this is the invariant by which
scanning is followed.
-/

namespace AliasCheck
namespace Lexeme

/-! ## The end of a regular expression -/

/-- A character behind `body` stands in a class: a bracket that is not escaped opens one, and no
bracket behind it closes it. -/
def InClass (body : List Char) : Prop :=
  ∃ before inside, body = before ++ '[' :: inside ∧ escapesNext before = false ∧
    ∀ front back, inside = front ++ ']' :: back → escapesNext (before ++ '[' :: front) = true

/-- A slash behind `body` closes the regular expression that begins with `body`: it stands on the
same line, no backslash escapes it, and it is in no class. -/
structure ClosesRegex (body : List Char) : Prop where
  line : '\n' ∉ body ∧ '\r' ∉ body
  plain : escapesNext body = false
  outside : ¬ InClass body

/-- What is found when a regular expression is looked for whose first characters are `seen`. -/
inductive RegexEnd (seen rest : List Char) : Option (List Char) → Prop where
  /-- The first slash that closes it, and the flags behind that slash. -/
  | closed {body more : List Char} (hrest : rest = body ++ '/' :: more)
      (hcloses : ClosesRegex (seen ++ body))
      (hfirst : ∀ front back, body = front ++ '/' :: back → ¬ ClosesRegex (seen ++ front)) :
      RegexEnd seen rest (some (body ++ '/' :: more.takeWhile Char.isAlpha))
  | unclosed (hrest : ∀ body more, rest = body ++ '/' :: more → ¬ ClosesRegex (seen ++ body)) :
      RegexEnd seen rest none

section Regex

variable {seen rest cs : List Char} {c : Char} {escaped inClass : Bool}

theorem escapesNext_concat (seen : List Char) (c : Char) :
    escapesNext (seen ++ [c]) = (!escapesNext seen && c = '\\') := by
  simp [escapesNext, List.foldl_append]

/-- A character changes whether what follows is in a class only if it is a bracket that is not
escaped. -/
theorem inClass_concat : InClass (seen ++ [c]) ↔ (c = '[' ∧ escapesNext seen = false) ∨
    (InClass seen ∧ (c = ']' → escapesNext seen = true)) := by
  constructor
  · rintro ⟨before, inside, heq, hbefore, hinside⟩
    rcases List.eq_nil_or_concat inside with rfl | ⟨inside, d, rfl⟩
    · obtain ⟨rfl, hc⟩ := List.append_inj' heq rfl
      exact .inl ⟨(List.cons.inj hc).1, hbefore⟩
    · have hends : seen ++ [c] = before ++ '[' :: inside ++ [d] := by simpa using heq
      obtain ⟨rfl, hc⟩ := List.append_inj' hends rfl
      obtain ⟨rfl, -⟩ := List.cons.inj hc
      refine .inr ⟨⟨before, inside, rfl, hbefore, fun front back hback => ?_⟩, ?_⟩
      · exact hinside front (back ++ [c]) (by simp [hback])
      · rintro rfl
        exact hinside inside [] (by simp)
  · rintro (⟨rfl, hplain⟩ | ⟨⟨before, inside, rfl, hbefore, hinside⟩, hcloses⟩)
    · exact ⟨seen, [], rfl, hplain, fun front back heq => absurd heq (by simp)⟩
    · refine ⟨before, inside ++ [c], by simp, hbefore, fun front back heq => ?_⟩
      rcases List.eq_nil_or_concat back with rfl | ⟨back, d, rfl⟩
      · obtain ⟨rfl, hc⟩ := List.append_inj' heq rfl
        exact hcloses (List.cons.inj hc).1
      · have hends : inside ++ [c] = front ++ ']' :: back ++ [d] := by simpa using heq
        exact hinside front back (List.append_inj' hends rfl).1

/-- What the scanner does at a character, and which flags it goes on with. -/
theorem regexStep_cases (escaped inClass : Bool) (c : Char) :
    (regexStep escaped inClass c = .fails ∧ (c = '\n' ∨ c = '\r')) ∨
    (regexStep escaped inClass c = .closes ∧ c = '/' ∧ escaped = false ∧ inClass = false) ∨
    ∃ escaped' inClass', regexStep escaped inClass c = .goes escaped' inClass' ∧
      c ≠ '\n' ∧ c ≠ '\r' ∧ (c = '/' → escaped = true ∨ inClass = true) ∧
      escaped' = (!escaped && c = '\\') ∧
      (inClass' = true ↔ (c = '[' ∧ escaped = false) ∨
        (inClass = true ∧ (c = ']' → escaped = true))) := by
  unfold regexStep
  by_cases hline : c = '\n' ∨ c = '\r'
  · exact .inl ⟨if_pos hline, hline⟩
  rw [if_neg hline]
  rw [not_or] at hline
  cases escaped with
  | true => exact .inr (.inr ⟨false, inClass, by simp [hline]⟩)
  | false =>
    by_cases hslash : c = '\\'
    · exact .inr (.inr ⟨true, inClass, by simp [hslash]⟩)
    by_cases hopens : c = '['
    · exact .inr (.inr ⟨false, true, by simp [hopens]⟩)
    by_cases hcloses : c = ']'
    · exact .inr (.inr ⟨false, false, by simp [hcloses]⟩)
    by_cases hends : c = '/' ∧ inClass = false
    · exact .inr (.inl (by simp [hends]))
    · exact .inr (.inr ⟨false, inClass, by simp_all⟩)

/-- A character that does not close a regular expression may be counted to what has been seen. -/
theorem RegexEnd.cons {found : Option (List Char)} (h : RegexEnd (seen ++ [c]) rest found)
    (hc : c = '/' → ¬ ClosesRegex seen) : RegexEnd seen (c :: rest) (found.map (c :: ·)) := by
  cases h with
  | @closed body more hrest hcloses hfirst =>
    have hfirst' : ∀ front back, c :: body = front ++ '/' :: back →
        ¬ ClosesRegex (seen ++ front) := by
      rintro (_ | ⟨d, front⟩) back heq
      · rw [List.append_nil]
        exact hc (List.cons.inj heq).1
      · obtain ⟨rfl, rfl⟩ := List.cons.inj heq
        simpa using hfirst front back rfl
    have hsome : RegexEnd seen (c :: rest)
        (some (c :: body ++ '/' :: more.takeWhile Char.isAlpha)) :=
      .closed (by rw [hrest]; rfl) (by simpa using hcloses) hfirst'
    exact hsome
  | unclosed hrest =>
    refine .unclosed ?_
    rintro (_ | ⟨d, body⟩) more heq
    · rw [List.append_nil]
      exact hc (List.cons.inj heq).1
    · obtain ⟨rfl, rfl⟩ := List.cons.inj heq
      simpa using hrest body more rfl

/-- Scanning for the end of a regular expression finds what it should. The flags of the scanner are
facts about the text that it has passed. -/
theorem regexEnd_regex (hline : '\n' ∉ seen ∧ '\r' ∉ seen) (hescaped : escapesNext seen = escaped)
    (hclass : InClass seen ↔ inClass = true) : RegexEnd seen cs (regex escaped inClass cs) := by
  induction cs generalizing seen escaped inClass with
  | nil => exact .unclosed fun body more heq => absurd heq (by simp)
  | cons c cs ih =>
    rw [regex_cons]
    rcases regexStep_cases escaped inClass c with
      ⟨hstep, hc⟩ | ⟨hstep, rfl, rfl, rfl⟩ | ⟨e, k, hstep, hn, hr, hslash, rfl, hk⟩
    · rw [hstep]
      refine .unclosed ?_
      rintro (_ | ⟨d, body⟩) more heq hcloses
      · obtain ⟨rfl, -⟩ := List.cons.inj heq
        exact absurd hc (by decide)
      · obtain ⟨rfl, -⟩ := List.cons.inj heq
        rcases hc with rfl | rfl
        · exact hcloses.line.1 (by simp)
        · exact hcloses.line.2 (by simp)
    · rw [hstep]
      have houtside : ¬ InClass seen := fun hin => Bool.false_ne_true (hclass.mp hin)
      refine @RegexEnd.closed seen ('/' :: cs) [] cs rfl ?_ fun _ _ heq => absurd heq (by simp)
      rw [List.append_nil]
      exact ⟨hline, hescaped, houtside⟩
    · rw [hstep]
      refine (ih ?_ ?_ ?_).cons ?_
      · simp [hline, hn.symm, hr.symm]
      · rw [escapesNext_concat, hescaped]
      · rw [inClass_concat, hk, hescaped, hclass]
      · intro hc hcloses
        rcases hslash hc with rfl | rfl
        · rw [hcloses.plain] at hescaped
          cases hescaped
        · exact hcloses.outside (hclass.mpr rfl)

end Regex

end Lexeme

namespace Token

/-! ## Slashes between tokens -/

/-- The token in front of a place, if there is one, can be the last of an operand. -/
def EndsOperand (previous : Option Token) : Prop :=
  ∃ t, previous = some t ∧
    (t.kind ∈ [.number, .string, .template, .regex, .closeParen, .closeBracket] ∨
      (t.kind = .identifier ∧ t.text ∉ operandWords))

variable {previous : Option Token} {offset : Nat} {cs : List Char} {t : Token}
  {tokens before after : List Token}

theorem regexAllowed_eq_false : regexAllowed previous = false ↔ EndsOperand previous := by
  cases previous with
  | none => simp [regexAllowed, EndsOperand]
  | some t =>
    obtain ⟨kind, text, start⟩ := t
    cases kind <;> simp [regexAllowed, EndsOperand]

/-- A token is read where it stands, behind the token in front of it. -/
theorem Scans.rule_at (h : Scans previous offset cs tokens)
    (htokens : tokens = before ++ t :: after) :
    ∃ front c tail rest, cs = front ++ c :: (tail ++ rest) ∧ t.text = String.ofList (c :: tail) ∧
      t.start = offset + byteLength front ∧
      Lexeme.Rule (regexAllowed (before.getLast?.or previous)) c (tail ++ rest)
        (.token t.kind (c :: tail)) := by
  induction h generalizing before with
  | done => exact absurd htokens (by simp)
  | @blank _ _ c tail _ _ _ _ ih =>
    obtain ⟨front, d, more, rest, rfl, htext, hstart, hrule⟩ := ih htokens
    refine ⟨c :: tail ++ front, d, more, rest, by simp, htext, ?_, hrule⟩
    rw [hstart, byteLength_append, Nat.add_assoc]
  | @token previous _ kind c tail rest _ hrule _ ih =>
    cases before with
    | nil =>
      obtain ⟨rfl, rfl⟩ := List.cons.inj htokens
      exact ⟨[], c, tail, rest, rfl, rfl, rfl, hrule⟩
    | cons first before =>
      obtain ⟨rfl, rfl⟩ := List.cons.inj htokens
      obtain ⟨front, d, more, rest, rfl, htext, hstart, hrule⟩ := ih rfl
      refine ⟨c :: tail ++ front, d, more, rest, by simp, htext, ?_, ?_⟩
      · rw [hstart, byteLength_append, Nat.add_assoc]
      · rwa [getLast?_cons_or]

/-- A token that begins with a slash is a slash alone behind the end of an operand. Anywhere else it
is a regular expression if there is a slash that closes one, and then it goes through the first such
slash and all letters behind it, and it is a slash alone if there is none. -/
theorem slash_or_regex {text : List Char} (h : scan text = .ok tokens)
    (htokens : tokens = before ++ t :: after) (hslash : t.text.toList.head? = some '/') :
    ∃ front rest, text = front ++ '/' :: rest ∧ t.start = byteLength front ∧
      (EndsOperand before.getLast? → t.kind = .slash ∧ t.text = "/") ∧
      (¬ EndsOperand before.getLast? →
        (t.kind = .regex ↔ ∃ body more, rest = body ++ '/' :: more ∧ Lexeme.ClosesRegex body) ∧
        (t.kind = .regex → ∃ body more, rest = body ++ '/' :: more ∧ Lexeme.ClosesRegex body ∧
          (∀ front back, body = front ++ '/' :: back → ¬ Lexeme.ClosesRegex front) ∧
          t.text.toList = '/' :: (body ++ '/' :: more.takeWhile Char.isAlpha)) ∧
        (t.kind ≠ .regex → t.kind = .slash ∧ t.text = "/")) := by
  have hscans := scanFrom_eq_ok.mp (scan_eq_ok.mp h)
  obtain ⟨front, c, tail, rest, hcs, htext, hstart, hrule⟩ := hscans.rule_at htokens
  rw [htext, String.toList_ofList] at hslash
  obtain rfl : c = '/' := Option.some.inj hslash
  refine ⟨front, tail ++ rest, hcs, by rw [hstart, Nat.zero_add], ?_⟩
  rw [htext, String.toList_ofList]
  rw [Option.or_none] at hrule
  generalize hmore : tail ++ rest = cs at hrule
  generalize hkind : t.kind = kind at hrule ⊢
  have hends : ∀ {found : Option (List Char)}, Lexeme.regex false false cs = found →
      Lexeme.RegexEnd [] cs found := by
    rintro found rfl
    exact Lexeme.regexEnd_regex (by simp) rfl (by simp [Lexeme.InClass])
  cases hrule with
  | word hc => exact absurd hc (by decide)
  | string hquote _ => exact absurd hquote (by decide)
  | mark hmark => cases hmark
  | regex _ _ hallowed hregex =>
    have hoperand : ¬ EndsOperand before.getLast? := by
      rw [← regexAllowed_eq_false, hallowed]
      exact Bool.noConfusion
    cases hends hregex with
    | @closed body more hrest hcloses hfirst =>
      refine ⟨fun h => absurd h hoperand, fun _ => ⟨?_, fun _ => ?_, fun hne => absurd rfl hne⟩⟩
      · exact iff_of_true rfl ⟨body, more, hrest, hcloses⟩
      · exact ⟨body, more, hrest, hcloses, hfirst, rfl⟩
  | slash _ _ hnone =>
    refine ⟨fun _ => ⟨rfl, rfl⟩, fun hoperand => ⟨⟨nofun, ?_⟩, nofun, fun _ => ⟨rfl, rfl⟩⟩⟩
    rintro ⟨body, more, hrest, hcloses⟩
    rw [← regexAllowed_eq_false, Bool.not_eq_false] at hoperand
    cases hends (hnone hoperand) with
    | unclosed hopen => exact absurd hcloses (hopen body more hrest)

/-- Behind a keyword a slash opens a regular expression, which goes on through the slashes that are
escaped or in a class; the slash behind it is a division, although a slash behind that one would
close a regular expression too. -/
theorem slash_or_regex_example :
    ∃ text before t after, text = "\"\u00e9\";return /[/\\]/]\\/]/gi / b / c".toList ∧
      scan text = .ok (before ++ t :: after) ∧ t = ⟨.regex, "/[/\\]/]\\/]/gi", 12⟩ ∧
      ∃ front rest, text = front ++ '/' :: rest ∧ t.start = byteLength front ∧
        (EndsOperand before.getLast? → t.kind = .slash ∧ t.text = "/") ∧
        (¬ EndsOperand before.getLast? →
          (t.kind = .regex ↔ ∃ body more, rest = body ++ '/' :: more ∧ Lexeme.ClosesRegex body) ∧
          (t.kind = .regex → ∃ body more, rest = body ++ '/' :: more ∧ Lexeme.ClosesRegex body ∧
            (∀ front back, body = front ++ '/' :: back → ¬ Lexeme.ClosesRegex front) ∧
            t.text.toList = '/' :: (body ++ '/' :: more.takeWhile Char.isAlpha)) ∧
          (t.kind ≠ .regex → t.kind = .slash ∧ t.text = "/")) := by
  generalize htext : "\"\u00e9\";return /[/\\]/]\\/]/gi / b / c".toList = text
  have hscan : scan text = .ok
      ([⟨.string, "\"\u00e9\"", 0⟩, ⟨.semicolon, ";", 4⟩, ⟨.identifier, "return", 5⟩] ++
        ⟨.regex, "/[/\\]/]\\/]/gi", 12⟩ ::
          [⟨.slash, "/", 26⟩, ⟨.identifier, "b", 28⟩, ⟨.slash, "/", 30⟩,
            ⟨.identifier, "c", 32⟩]) := by
    subst htext
    decide +kernel
  exact ⟨text, _, _, _, rfl, hscan, rfl, slash_or_regex hscan rfl rfl⟩

end Token
end AliasCheck
