import AliasCheck.Proofs.Tiles

/-!
# One token on each line

Which tokens a text has does not depend on how it is laid out: when each token of a text is written
on a line of its own, the lines have the same tokens. A line feed ends every token, and whether a
slash begins a regular expression depends on the token before it and on nothing behind its line.
-/

namespace AliasCheck
namespace Token

/-- The tokens of a list, each on a line of its own. -/
def linewise (tokens : List Token) : List Char :=
  ['\n'].intercalate (tokens.map fun t => t.text.toList)

/-- What a token is apart from its place. -/
def content (t : Token) : Kind × String := (t.kind, t.text)

variable {previous previous' : Option Token} {offset : Nat} {cs : List Char} {tokens : List Token}

theorem linewise_cons (t : Token) (tokens : List Token) : linewise (t :: tokens)
    = t.text.toList ++ if tokens = [] then [] else '\n' :: linewise tokens := by
  cases tokens with
  | nil => simp [linewise]
  | cons u tokens => simp [linewise]

theorem regexAllowed_congr {t u : Token} (h : t.content = u.content) :
    regexAllowed (some t) = regexAllowed (some u) := by
  obtain ⟨hkind, htext⟩ := Prod.mk.inj h
  simp only [regexAllowed, hkind, htext]

/-- A line feed behind a token that is alone in its text does not change it. -/
theorem rule_newline {allowed : Bool} {kind : Kind} {c : Char} {tail rest : List Char}
    (h : Lexeme.Rule allowed c (tail ++ rest) (.token kind (c :: tail))) (more : List Char) :
    Lexeme.Rule allowed c (tail ++ '\n' :: more) (.token kind (c :: tail)) :=
  (h.cut (Nat.le_refl _)).append (Kind.fits_newline kind) more

/-- The lines have the tokens that they were made of, at other places. -/
theorem Scans.linewise (h : Scans previous offset cs tokens)
    (hprevious : regexAllowed previous' = regexAllowed previous) (offset' : Nat) :
    ∃ again, Scans previous' offset' (linewise tokens) again ∧
      again.map content = tokens.map content := by
  induction h generalizing previous' offset' with
  | done => exact ⟨[], .done, rfl⟩
  | blank _ _ ih => exact ih hprevious offset'
  | @token previous offset kind c tail rest tokens hrule hrest ih =>
    -- The next line begins behind a token of the same content, which is all that a slash there
    -- depends on.
    rw [← hprevious] at hrule
    obtain ⟨again, hagain, hcontent⟩ := ih
      (regexAllowed_congr (t := ⟨kind, String.ofList (c :: tail), offset'⟩) rfl)
      (offset' + byteLength (c :: tail) + 1)
    refine ⟨⟨kind, String.ofList (c :: tail), offset'⟩ :: again, ?_, ?_⟩
    · rw [linewise_cons, String.toList_ofList]
      by_cases hlast : tokens = []
      · subst hlast
        cases List.map_eq_nil_iff.mp hcontent
        rw [if_pos rfl]
        exact .token (by rw [List.append_nil]; exact hrule.cut (Nat.le_refl _)) .done
      · rw [if_neg hlast, List.cons_append]
        exact .token (rule_newline hrule _) (hagain.of_isBlank (by decide))
    · rw [List.map_cons, List.map_cons, hcontent]
      rfl

/-- Writing each token of a text on a line of its own gives a text with the same tokens. -/
theorem scan_linewise {text : List Char} (h : scan text = .ok tokens) :
    ∃ again, scan (linewise tokens) = .ok again ∧ again.map content = tokens.map content := by
  obtain ⟨again, hagain, hcontent⟩ := (scanFrom_eq_ok.mp (scan_eq_ok.mp h)).linewise rfl 0
  exact ⟨again, scan_eq_ok.mpr (scanFrom_eq_ok.mpr hagain), hcontent⟩

/-- The first two slashes of this text divide, the third is no regular expression since nothing on
its line closes it, and the next two are one. -/
theorem scan_linewise_example :
    ∃ text tokens again, text = "a / b / c; (/ d\n) = /e/g // f /".toList ∧
      scan text = .ok tokens ∧ tokens.map kind =
        [.identifier, .slash, .identifier, .slash, .identifier, .semicolon, .openParen, .slash,
          .identifier, .closeParen, .equals, .regex] ∧
      scan (linewise tokens) = .ok again ∧ again.map content = tokens.map content := by
  generalize htext : "a / b / c; (/ d\n) = /e/g // f /".toList = text
  have hkinds : (scan text).map (fun tokens => tokens.map kind)
      = .ok [.identifier, .slash, .identifier, .slash, .identifier, .semicolon, .openParen, .slash,
          .identifier, .closeParen, .equals, .regex] := by
    subst htext
    decide +kernel
  cases hscan : scan text with
  | error e =>
    rw [hscan] at hkinds
    cases hkinds
  | ok tokens =>
    rw [hscan] at hkinds
    obtain ⟨again, hagain, hcontent⟩ := scan_linewise hscan
    exact ⟨text, tokens, again, rfl, hscan, Except.ok.inj hkinds, hagain, hcontent⟩

end Token
end AliasCheck
