import AliasCheck.Proofs.Lexemes
import AliasCheck.Proofs.Results
import AliasCheck.Text.Blanking
import AliasCheck.Token.Scan

/-!
# Scanning text behind text

`Token.Scans` is the scanner as a relation that cuts off one lexeme at a time; facts about all of a
text are shown by induction on it. The tokens of a text with a line that holds only a semicolon and
further text behind it are those of the text, the semicolon, and those of the further text at other
offsets. The line feed ends whatever lexeme the first text ends with, and behind a semicolon a slash
means what it means at the beginning of a source.
-/

namespace AliasCheck
namespace Token

/-- The token as it stands `n` bytes further on. -/
def moveBy (n : Nat) (t : Token) : Token := { t with start := t.start + n }

variable {previous : Option Token} {offset : Nat} {cs : List Char} {tokens : List Token}

theorem scanFrom_skip (previous : Option Token) (offset : Nat) (cs rest : List Char) :
    scanFrom previous offset cs.length (cs ++ rest)
      = scanFrom previous (offset + byteLength cs) 0 rest := by
  induction cs generalizing offset with
  | nil => rfl
  | cons c cs ih =>
    rw [List.length_cons, List.cons_append, scanFrom, ih, byteLength_cons, Nat.add_assoc]

/-- Blanks in front of a text may be skipped or read. -/
theorem scanFrom_takeWhile_isBlank (previous : Option Token) (offset : Nat) (cs : List Char) :
    scanFrom previous offset (cs.takeWhile Lexeme.isBlank).length cs
      = scanFrom previous offset 0 cs := by
  cases cs with
  | nil => rfl
  | cons c cs =>
    cases hc : Lexeme.isBlank c with
    | false =>
      rw [List.takeWhile_cons, hc]
      rfl
    | true =>
      rw [List.takeWhile_cons, hc, if_pos rfl, List.length_cons, scanFrom, scanFrom,
        Lexeme.read_blank hc]
      rfl

/-! ## One lexeme at a time -/

/-- The text `cs`, which begins at `offset` behind `previous`, falls into lexemes of which `tokens`
are those that count. -/
inductive Scans : (previous : Option Token) → (offset : Nat) → (cs : List Char) →
    (tokens : List Token) → Prop where
  | done {previous : Option Token} {offset : Nat} : Scans previous offset [] []
  | blank {previous : Option Token} {offset : Nat} {c : Char} {tail rest : List Char}
      {tokens : List Token}
      (hrule : Lexeme.Rule (regexAllowed previous) c (tail ++ rest) (.blank (c :: tail)))
      (hrest : Scans previous (offset + byteLength (c :: tail)) rest tokens) :
      Scans previous offset (c :: (tail ++ rest)) tokens
  | token {previous : Option Token} {offset : Nat} {kind : Kind} {c : Char} {tail rest : List Char}
      {tokens : List Token}
      (hrule : Lexeme.Rule (regexAllowed previous) c (tail ++ rest) (.token kind (c :: tail)))
      (hrest : Scans (some ⟨kind, String.ofList (c :: tail), offset⟩)
        (offset + byteLength (c :: tail)) rest tokens) :
      Scans previous offset (c :: (tail ++ rest))
        (⟨kind, String.ofList (c :: tail), offset⟩ :: tokens)

theorem scanFrom_lexeme (previous : Option Token) (offset : Nat) (c : Char)
    (tail rest : List Char) :
    scanFrom previous (offset + c.utf8Size) ((c :: tail).length - 1) (tail ++ rest)
      = scanFrom previous (offset + byteLength (c :: tail)) 0 rest := by
  rw [List.length_cons, Nat.add_sub_cancel, scanFrom_skip, byteLength_cons, Nat.add_assoc]

section Step

variable {c : Char} {tail rest : List Char} {kind : Kind}

theorem scanFrom_blank
    (hrule : Lexeme.Rule (regexAllowed previous) c (tail ++ rest) (.blank (c :: tail))) :
    scanFrom previous offset 0 (c :: (tail ++ rest))
      = scanFrom previous (offset + byteLength (c :: tail)) 0 rest := by
  rw [scanFrom, hrule.read_eq]
  exact scanFrom_lexeme previous offset c tail rest

theorem scanFrom_token
    (hrule : Lexeme.Rule (regexAllowed previous) c (tail ++ rest) (.token kind (c :: tail))) :
    scanFrom previous offset 0 (c :: (tail ++ rest))
      = (scanFrom (some ⟨kind, String.ofList (c :: tail), offset⟩)
          (offset + byteLength (c :: tail)) 0 rest).map
            (⟨kind, String.ofList (c :: tail), offset⟩ :: ·) := by
  rw [scanFrom, hrule.read_eq]
  dsimp only
  rw [scanFrom_lexeme]
  cases scanFrom (some ⟨kind, String.ofList (c :: tail), offset⟩) _ 0 rest <;> rfl

end Step

theorem scans_of_scanFrom (h : scanFrom previous offset 0 cs = .ok tokens) :
    Scans previous offset cs tokens := by
  induction hlen : cs.length using Nat.strongRecOn
    generalizing previous offset cs tokens with
  | ind n ih =>
    cases cs with
    | nil =>
      cases h
      exact .done
    | cons c cs =>
      rcases Lexeme.read_cases (regexAllowed previous) c cs with
        ⟨tail, rest, rfl, hrule⟩ | ⟨kind, tail, rest, rfl, hrule⟩ | ⟨fault, hread⟩
      · rw [scanFrom_blank hrule] at h
        exact .blank hrule (ih rest.length (by simp at hlen; omega) h rfl)
      · rw [scanFrom_token hrule, map_eq_ok] at h
        obtain ⟨more, hmore, rfl⟩ := h
        exact .token hrule (ih rest.length (by simp at hlen; omega) hmore rfl)
      · rw [scanFrom, hread] at h
        cases h

theorem scanFrom_eq_ok :
    scanFrom previous offset 0 cs = .ok tokens ↔ Scans previous offset cs tokens := by
  refine ⟨scans_of_scanFrom, fun h => ?_⟩
  induction h with
  | done => rfl
  | blank hrule _ ih => rw [scanFrom_blank hrule, ih]
  | token hrule _ ih =>
    rw [scanFrom_token hrule, ih]
    rfl

theorem Scans.of_isBlank {c : Char} (hc : Lexeme.isBlank c = true)
    (h : Scans previous (offset + c.utf8Size) cs tokens) :
    Scans previous offset (c :: cs) tokens := by
  rw [← scanFrom_eq_ok] at h ⊢
  rw [scanFrom, Lexeme.read_blank hc]
  dsimp only
  rw [List.length_cons, Nat.add_sub_cancel, scanFrom_takeWhile_isBlank]
  exact h

theorem Scans.of_blanks {blanks : List Char} (hblanks : ∀ c ∈ blanks, Lexeme.isBlank c = true)
    (h : Scans previous (offset + byteLength blanks) cs tokens) :
    Scans previous offset (blanks ++ cs) tokens := by
  induction blanks generalizing offset with
  | nil => exact h
  | cons c blanks ih =>
    rw [List.forall_mem_cons] at hblanks
    rw [byteLength_cons, ← Nat.add_assoc] at h
    exact (ih hblanks.2 h).of_isBlank hblanks.1

/-! ## Offsets -/

/-- Of what stands before a text, only the offset and whether an operand ended matter. -/
theorem Scans.moveBy {previous' : Option Token} (h : Scans previous offset cs tokens) (n : Nat)
    (hprevious : regexAllowed previous' = regexAllowed previous) :
    Scans previous' (offset + n) cs (tokens.map (Token.moveBy n)) := by
  induction h generalizing previous' with
  | done => exact .done
  | blank hrule _ ih =>
    rw [← hprevious] at hrule
    refine .blank hrule ?_
    rw [Nat.add_right_comm]
    exact ih hprevious
  | @token previous offset kind c tail rest tokens hrule _ ih =>
    rw [← hprevious] at hrule
    refine .token hrule ?_
    rw [Nat.add_right_comm]
    exact ih rfl

/-! ## Further text -/

/-- The last token of some that stand behind `previous`. -/
theorem getLast?_cons_or (previous : Option Token) (t : Token) (tokens : List Token) :
    (t :: tokens).getLast?.or previous = tokens.getLast?.or (some t) := by
  rw [List.getLast?_cons]
  cases tokens.getLast? <;> rfl

/-- A line feed behind a text leaves its tokens as they are, whatever follows. -/
theorem Scans.append {more : List Char} {others : List Token}
    (h : Scans previous offset cs tokens)
    (hmore : Scans (tokens.getLast?.or previous) (offset + byteLength cs + 1) more others) :
    Scans previous offset (cs ++ '\n' :: more) (tokens ++ others) := by
  induction h with
  | done => exact hmore.of_isBlank (by decide)
  | @blank previous offset c tail rest tokens hrule _ ih =>
    rw [← List.cons_append, byteLength_append, ← Nat.add_assoc] at hmore
    rw [← List.cons_append, List.append_assoc]
    cases hc : Lexeme.isBlank c with
    | true =>
      -- Blanks go on with the line feed, so they are taken one by one.
      refine .of_blanks (List.forall_mem_cons.mpr ⟨hc, ?_⟩) (ih hmore)
      have hread := (Lexeme.read_blank hc (regexAllowed previous) (tail ++ rest)).symm.trans
        hrule.read_eq
      simp only [Lexeme.blank.injEq, List.cons.injEq, true_and] at hread
      rw [← hread]
      exact List.all_eq_true.mp List.all_takeWhile
    | false =>
      have hagain := hrule.append_newline hc more
      rw [List.append_assoc] at hagain
      exact .blank hagain (ih hmore)
  | @token previous offset kind c tail rest tokens hrule _ ih =>
    rw [← List.cons_append, byteLength_append, ← Nat.add_assoc, getLast?_cons_or] at hmore
    have hagain := hrule.append (Kind.fits_newline kind) more
    rw [List.append_assoc] at hagain
    rw [List.cons_append, List.append_assoc]
    exact .token hagain (ih hmore)

/-- The semicolon between two texts is a token, and the second text is scanned like a source. -/
theorem Scans.semicolon {others : List Token} (h : Scans none 0 cs others)
    (previous : Option Token) (offset : Nat) : Scans previous offset (';' :: '\n' :: cs)
      (⟨.semicolon, ";", offset⟩ :: others.map (Token.moveBy (offset + 2))) := by
  have hmoved : Scans (some ⟨.semicolon, ";", offset⟩) (0 + (offset + 2)) cs _ :=
    h.moveBy (offset + 2) rfl
  rw [Nat.zero_add] at hmoved
  have hrule : Lexeme.Rule (regexAllowed previous) ';' ([] ++ '\n' :: cs)
      (.token .semicolon [';']) := .mark rfl
  exact .token hrule (hmoved.of_isBlank (by decide))

theorem scan_eq_ok : scan cs = .ok tokens ↔ scanFrom none 0 0 cs = .ok tokens := by
  unfold scan
  cases scanFrom none 0 0 cs with
  | ok tokens => simp
  | error e => simp

/-- The tokens of two texts with a line between them that holds a semicolon. -/
theorem scan_append {ds : List Char} {others : List Token} (h : scan cs = .ok tokens)
    (h' : scan ds = .ok others) :
    scan (cs ++ '\n' :: ';' :: '\n' :: ds)
      = .ok (tokens ++ ⟨.semicolon, ";", byteLength cs + 1⟩ ::
          others.map (moveBy (byteLength cs + 3))) := by
  rw [scan_eq_ok, scanFrom_eq_ok] at h h' ⊢
  refine h.append ?_
  rw [Nat.zero_add]
  exact h'.semicolon _ _

end Token

/-! ## Blanked text -/

namespace Blanking

/-- The mark stands on one line. -/
theorem startsWithMark_append (cs more : List Char) :
    startsWithMark (cs ++ '\n' :: more) = startsWithMark cs := by
  rcases Nat.lt_or_ge cs.length mark.length with hlt | hge
  · have hfalse : startsWithMark (cs ++ '\n' :: more) = false := by
      cases h : startsWithMark (cs ++ '\n' :: more) with
      | false => rfl
      | true =>
        have hmem : '\n' ∈ (cs ++ '\n' :: more).take mark.length := by
          obtain ⟨n, hn⟩ := Nat.exists_eq_add_of_lt hlt
          rw [hn, Nat.add_assoc, List.take_length_add_append]
          simp
        have hmark := List.mem_map_of_mem (f := Char.toLower) hmem
        rw [beq_iff_eq.mp h] at hmark
        exact absurd hmark (by decide)
    have hfalse' : startsWithMark cs = false := by
      refine beq_eq_false_iff_ne.mpr fun heq => ?_
      have hlen := congrArg List.length heq
      rw [List.length_map, List.length_take] at hlen
      omega
    rw [hfalse, hfalse']
  · rw [startsWithMark, List.take_append_of_le_length hge, ← startsWithMark]

/-- Blanking stops at the end of a line. -/
theorem blank_append (inside : Bool) (cs more : List Char) :
    blank inside (cs ++ '\n' :: more) = blank inside cs ++ '\n' :: blank false more := by
  induction cs generalizing inside with
  | nil =>
    simp [blank]
  | cons c cs ih =>
    have hmark := startsWithMark_append (c :: cs) more
    rw [List.cons_append] at hmark ⊢
    rw [blank, blank, hmark, ih, ih]
    split
    · rfl
    · split
      · rw [List.append_assoc]
      · rfl

end Blanking

end AliasCheck
