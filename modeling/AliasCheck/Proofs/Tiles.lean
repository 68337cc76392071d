import AliasCheck.Proofs.Scanning

/-!
# Where tokens stand in their text

Nothing of a text is lost when it is cut into tokens: what stands in front of the first token,
between two tokens and behind the last one is blanks and comments.
-/

namespace AliasCheck
namespace Token

variable {previous : Option Token} {offset : Nat} {cs : List Char} {tokens : List Token}

/-! ## What stands between tokens -/

/-- `gap`, which stands in front of `after`, consists of blanks, of comments that go on to the end
of their line, and of closed comments. -/
inductive Gap (after : List Char) : (gap : List Char) → Prop where
  | nil : Gap after []
  | blank {c : Char} {gap : List Char} (hc : Lexeme.isBlank c = true) (hgap : Gap after gap) :
      Gap after (c :: gap)
  | lineComment {body gap : List Char} (hbody : '\n' ∉ body)
      (hend : ∀ d, (gap ++ after).head? = some d → d = '\n') (hgap : Gap after gap) :
      Gap after ('/' :: '/' :: (body ++ gap))
  | blockComment {body gap : List Char} (hbody : ¬ ['*', '/'] <:+: body ++ ['*'])
      (hgap : Gap after gap) : Gap after ('/' :: '*' :: (body ++ ('*' :: '/' :: gap)))

/-- The tokens stand in a text that begins at `offset`, each at its place, and nothing else stands
there but gaps. -/
inductive Tiles : (offset : Nat) → (text : List Char) → (tokens : List Token) → Prop where
  | last {offset : Nat} {gap : List Char} (hgap : Gap [] gap) : Tiles offset gap []
  | token {offset : Nat} {t : Token} {gap rest : List Char} {tokens : List Token}
      (hgap : Gap (t.text.toList ++ rest) gap) (htext : t.text ≠ "")
      (hstart : t.start = offset + byteLength gap) (hrest : Tiles t.stop rest tokens) :
      Tiles offset (gap ++ (t.text.toList ++ rest)) (t :: tokens)

theorem Gap.blanks {after gap blanks : List Char} (hblanks : ∀ c ∈ blanks, Lexeme.isBlank c = true)
    (hgap : Gap after gap) : Gap after (blanks ++ gap) := by
  induction blanks with
  | nil => exact hgap
  | cons c blanks ih =>
    rw [List.forall_mem_cons] at hblanks
    exact .blank hblanks.1 (ih hblanks.2)

theorem Gap.lexeme {allowed : Bool} {c : Char} {tail gap after : List Char}
    (hrule : Lexeme.Rule allowed c (tail ++ (gap ++ after)) (.blank (c :: tail)))
    (hgap : Gap after gap) : Gap after (c :: (tail ++ gap)) := by
  generalize hcs : tail ++ (gap ++ after) = cs at hrule
  generalize htext : c :: tail = text at hrule
  cases hrule with
  | blanks hc =>
    cases htext
    exact .blank hc (.blanks (List.all_eq_true.mp List.all_takeWhile) hgap)
  | @lineComment cs =>
    cases htext
    have hsplit : cs.takeWhile (· ≠ '\n') ++ cs.dropWhile (· ≠ '\n') = cs :=
      List.takeWhile_append_dropWhile
    have hrest : gap ++ after = cs.dropWhile (· ≠ '\n') := by
      rw [List.cons_append, List.cons.injEq] at hcs
      exact List.append_cancel_left (hcs.2.trans hsplit.symm)
    refine .lineComment (fun hmem => ?_) (fun d hd => ?_) hgap
    · have hne := List.all_eq_true.mp (List.all_takeWhile (p := (· ≠ '\n')) (l := cs)) _ hmem
      exact absurd rfl (of_decide_eq_true hne)
    · have hnot := List.head?_dropWhile_not (· ≠ '\n') cs
      rw [← hrest, hd] at hnot
      simpa using hnot
  | blockComment h =>
    cases htext
    obtain ⟨body, -, rfl, -, hbody⟩ := Lexeme.comment_eq_some.mp h
    have hblock := Gap.blockComment hbody hgap
    simpa using hblock

theorem Gap.of_rule {allowed : Bool} {c : Char} {tail rest : List Char}
    (hrule : Lexeme.Rule allowed c (tail ++ rest) (.blank (c :: tail))) : Gap rest (c :: tail) := by
  have hgap := @Gap.lexeme allowed c tail [] rest hrule .nil
  rwa [List.append_nil] at hgap

theorem Tiles.lexeme {allowed : Bool} {c : Char} {tail rest : List Char}
    (hrule : Lexeme.Rule allowed c (tail ++ rest) (.blank (c :: tail)))
    (h : Tiles (offset + byteLength (c :: tail)) rest tokens) :
    Tiles offset (c :: (tail ++ rest)) tokens := by
  cases h with
  | last hgap =>
    rw [← List.append_nil rest] at hrule
    exact .last (.lexeme hrule hgap)
  | @token _ t gap rest tokens hgap htext hstart hrest =>
    have hstart' : t.start = offset + byteLength (c :: (tail ++ gap)) := by
      rw [hstart, ← List.cons_append, byteLength_append, Nat.add_assoc]
    have htiles := Tiles.token (.lexeme hrule hgap) htext hstart' hrest
    rwa [List.cons_append, List.append_assoc] at htiles

theorem Scans.tiles (h : Scans previous offset cs tokens) : Tiles offset cs tokens := by
  induction h with
  | done => exact .last .nil
  | blank hrule _ ih => exact ih.lexeme hrule
  | @token previous offset kind c tail rest tokens _ _ ih =>
    have htext : String.ofList (c :: tail) ≠ "" := by
      rw [Ne, String.ofList_eq_empty_iff]
      exact List.cons_ne_nil c tail
    have htiles : Tiles (⟨kind, String.ofList (c :: tail), offset⟩ : Token).stop rest tokens := by
      rwa [stop, String.toList_ofList]
    have htoken := Tiles.token (t := ⟨kind, String.ofList (c :: tail), offset⟩) .nil htext
      (Nat.add_zero offset).symm htiles
    rwa [List.nil_append, String.toList_ofList] at htoken

theorem byteLength_pos {text : String} (h : text ≠ "") : 0 < byteLength text.toList := by
  cases hlist : text.toList with
  | nil => exact absurd (String.toList_eq_nil_iff.mp hlist) h
  | cons c cs =>
    have hc := c.utf8Size_pos
    rw [byteLength_cons]
    omega

/-- Every token stands at its place in the text. -/
theorem Tiles.stands (h : Tiles offset cs tokens) {t : Token} (ht : t ∈ tokens) :
    t.start < t.stop ∧ t.stop ≤ offset + byteLength cs ∧
      ∃ before after, cs = before ++ (t.text.toList ++ after) ∧
        t.start = offset + byteLength before := by
  induction h with
  | last _ => cases ht
  | @token offset u gap rest tokens _ htext hstart _ ih =>
    have hpos := byteLength_pos htext
    have hstop : u.stop = offset + byteLength gap + byteLength u.text.toList := by
      rw [stop, hstart]
    rcases List.mem_cons.mp ht with rfl | ht
    · refine ⟨?_, ?_, gap, rest, rfl, hstart⟩
      · rw [stop]
        omega
      · rw [stop, byteLength_append, byteLength_append]
        omega
    · obtain ⟨hlt, hle, before, after, rfl, hbefore⟩ := ih ht
      refine ⟨hlt, ?_, gap ++ (u.text.toList ++ before), after, by simp, ?_⟩
      · rw [byteLength_append gap, byteLength_append u.text.toList]
        omega
      · rw [byteLength_append, byteLength_append]
        omega

theorem Tiles.ordered (h : Tiles offset cs tokens) :
    tokens.Pairwise fun t u => t.stop ≤ u.start := by
  induction h with
  | last _ => exact .nil
  | token _ _ _ hrest ih =>
    refine .cons (fun u hu => ?_) ih
    obtain ⟨-, -, before, -, -, hbefore⟩ := hrest.stands hu
    omega

/-- Nothing is lost when a text is cut into tokens: the tokens stand in it one behind the other,
each of them at its place and between characters, and all of the text between them is blanks and
comments. -/
theorem tiles_of_scan {text : List Char} (h : scan text = .ok tokens) :
    Tiles 0 text tokens ∧
    (∀ t ∈ tokens, t.start < t.stop ∧ t.stop ≤ byteLength text ∧
      ∃ before after, text = before ++ (t.text.toList ++ after) ∧ t.start = byteLength before) ∧
    tokens.Pairwise fun t u => t.stop ≤ u.start := by
  have htiles := (scanFrom_eq_ok.mp (scan_eq_ok.mp h)).tiles
  refine ⟨htiles, fun t ht => ?_, htiles.ordered⟩
  simpa only [Nat.zero_add] using htiles.stands ht

/-- In this text there are lexemes of two lines, characters of several bytes, a regular expression
with flags, and a comment that ends with the text. -/
theorem tiles_of_scan_example :
    ∃ text tokens,
      text = "/* \u00e4\n*/ type N\u00e4me = `a\n\\`b` | /[/]\\//gi // \u20ac\n;\t// end".toList ∧
      scan text = .ok tokens ∧ tokens.map (fun t => (t.start, t.stop)) =
        [(9, 13), (14, 19), (20, 21), (22, 29), (30, 31), (32, 41), (49, 50)] ∧
      Tiles 0 text tokens ∧
      (∀ t ∈ tokens, t.start < t.stop ∧ t.stop ≤ byteLength text ∧
        ∃ before after, text = before ++ (t.text.toList ++ after) ∧ t.start = byteLength before) ∧
      tokens.Pairwise fun t u => t.stop ≤ u.start := by
  generalize htext :
    "/* \u00e4\n*/ type N\u00e4me = `a\n\\`b` | /[/]\\//gi // \u20ac\n;\t// end".toList = text
  have hspans : (scan text).map (fun tokens => tokens.map fun t => (t.start, t.stop))
      = .ok [(9, 13), (14, 19), (20, 21), (22, 29), (30, 31), (32, 41), (49, 50)] := by
    subst htext
    decide +kernel
  cases hscan : scan text with
  | error e =>
    rw [hscan] at hspans
    cases hspans
  | ok tokens =>
    rw [hscan] at hspans
    exact ⟨text, tokens, rfl, hscan, Except.ok.inj hspans, tiles_of_scan hscan⟩

end Token
end AliasCheck
