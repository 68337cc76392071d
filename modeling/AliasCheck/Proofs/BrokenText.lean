import AliasCheck.Proofs.Tiles

/-!
# Where a text cannot be cut into tokens

Scanning stops at the first place where no lexeme begins. `Lexeme.Obstacle` says what stands there,
without the scanner's functions: something that is opened and never closed, or a control character.
`Token.Reaches` says that the scanner comes to a place. It reads each lexeme with all of the text
that follows, as the scanner does, because a lexeme ends where the next character does not go on
with it.
-/

namespace AliasCheck
namespace Lexeme

/-! ## Text that is not closed -/

/-- A character behind `cs` is escaped: an odd number of backslashes stands in front of it. -/
def escapesNext (cs : List Char) : Bool := cs.foldl (fun escaped c => !escaped && c = '\\') false

/-- A control character of ASCII. -/
def isControl (c : Char) : Bool := c.toNat < 0x20 || c.toNat = 0x7f

/-- No lexeme stands at the beginning of the text, for the reason that is given. -/
inductive Obstacle : (fault : SyntaxFault) → (text : List Char) → Prop where
  | comment {rest : List Char} (hopen : ¬ ['*', '/'] <:+: rest) :
      Obstacle .unclosedComment ('/' :: '*' :: rest)
  | template {rest : List Char}
      (hopen : ∀ body after, rest = body ++ '`' :: after → escapesNext body = true) :
      Obstacle .unclosedTemplate ('`' :: rest)
  /-- Not even an escaped line feed may stand in a string. -/
  | string {quote : Char} {rest : List Char} (hquote : quote = '"' ∨ quote = '\'')
      (hopen : ∀ body after, rest = body ++ quote :: after → '\n' ∉ body →
        escapesNext body = true) :
      Obstacle (.strayCharacter quote) (quote :: rest)
  | control {c : Char} {rest : List Char} (hc : isControl c = true) (hblank : isBlank c = false) :
      Obstacle (.strayCharacter c) (c :: rest)

section

variable {allowed : Bool} {c : Char} {cs text rest : List Char} {fault : SyntaxFault}

theorem comment_eq_none : comment cs = none ↔ ¬ ['*', '/'] <:+: cs := by
  fun_induction comment cs with
  | case1 => simp
  | case2 cs =>
    refine iff_of_false (Option.some_ne_none _) (not_not_intro ?_)
    exact ⟨[], cs, rfl⟩
  | case3 c cs hne ih =>
    rw [Option.map_eq_none_iff, ih, List.infix_cons_iff, not_or]
    refine ⟨fun h => ⟨?_, h⟩, And.right⟩
    rintro ⟨more, hmore⟩
    cases hmore
    exact hne more rfl rfl

/-- One step of the search for a mark. -/
theorem upToMark_cons_eq_none {ends : Char → Bool} {mark : Char} (escaped : Bool) (c : Char) :
    upToMark ends mark escaped (c :: cs) = none ↔
      ends c = true ∨ ((c = mark → escaped = true) ∧
        upToMark ends mark (!escaped && c = '\\') cs = none) := by
  rw [upToMark_cons]
  by_cases hends : ends c = true
  · simp [hends]
  · by_cases hmark : c = mark ∧ escaped = false
    · simp [hmark]
    · have hescaped : c = mark → escaped = true := by simpa using hmark
      rw [if_neg hends, if_neg hmark, Option.map_eq_none_iff]
      exact ⟨fun h => .inr ⟨hescaped, h⟩, fun h => (h.resolve_left hends).2⟩

theorem upToMark_eq_none {ends : Char → Bool} {mark : Char} (hmark : ends mark = false)
    (escaped : Bool) : upToMark ends mark escaped cs = none ↔
      ∀ body after, cs = body ++ mark :: after → (∀ c ∈ body, ends c = false) →
        body.foldl (fun escaped c => !escaped && c = '\\') escaped = true := by
  induction cs generalizing escaped with
  | nil => simp [upToMark]
  | cons c cs ih =>
    rw [upToMark_cons_eq_none, ih]
    constructor
    · rintro hnone (_ | ⟨d, body⟩) after hcs hbody
      · cases hcs
        rw [hmark] at hnone
        exact (hnone.resolve_left Bool.false_ne_true).1 rfl
      · cases hcs
        rw [List.forall_mem_cons] at hbody
        rw [hbody.1] at hnone
        exact (hnone.resolve_left Bool.false_ne_true).2 body after rfl hbody.2
    · intro hescapes
      cases hends : ends c with
      | true => exact .inl rfl
      | false =>
        refine .inr ⟨?_, fun body after hcs hbody => ?_⟩
        · rintro rfl
          exact hescapes [] cs rfl (List.forall_mem_nil _)
        · exact hescapes (c :: body) after (congrArg (c :: ·) hcs)
            (List.forall_mem_cons.mpr ⟨hends, hbody⟩)

theorem template_eq_none : template false cs = none ↔
    ∀ body after, cs = body ++ '`' :: after → escapesNext body = true := by
  rw [template_eq_upToMark, upToMark_eq_none rfl]
  simp [escapesNext]

theorem quoted_eq_none {quote : Char} (hquote : quote = '"' ∨ quote = '\'') :
    quoted quote false cs = none ↔
      ∀ body after, cs = body ++ quote :: after → '\n' ∉ body → escapesNext body = true := by
  have hends : decide (quote = '\n') = false := by
    rcases hquote with rfl | rfl <;> decide
  have hline : ∀ body : List Char, (∀ c ∈ body, decide (c = '\n') = false) ↔ '\n' ∉ body := by
    intro body
    simp only [decide_eq_false_iff_not]
    exact ⟨fun h hmem => h _ hmem rfl, fun h c hc hnewline => h (hnewline ▸ hc)⟩
  rw [quoted_eq_upToMark, upToMark_eq_none hends]
  simp only [hline, escapesNext]

/-! ## What cannot be read -/

/-- What a character of ASCII can be. -/
theorem character_cases (hc : c.toNat < 0x80) :
    isBlank c = true ∨ isIdentifierStart c = true ∨ c.isDigit = true ∨
      c ∈ ['"', '\'', '`', '/', '.', '='] ∨ (punctuation c).isSome = true ∨
      isControl c = true := by
  have hall : ∀ n < 0x80, isBlank (Char.ofNat n) = true ∨ isIdentifierStart (Char.ofNat n) = true ∨
      (Char.ofNat n).isDigit = true ∨ Char.ofNat n ∈ ['"', '\'', '`', '/', '.', '='] ∨
      (punctuation (Char.ofNat n)).isSome = true ∨ isControl (Char.ofNat n) = true := by
    decide +kernel
  have hchar := hall c.toNat hc
  rwa [Char.ofNat_toNat] at hchar

/-- A control character is nothing else, unless it is blank. -/
theorem control_begins_nothing (hc : isControl c = true) (hblank : isBlank c = false) :
    isIdentifierStart c = false ∧ c.isDigit = false ∧
      c ∉ ['"', '\'', '`', '/', '.', '='] ∧ punctuation c = none := by
  have hall : ∀ n < 0x80, isControl (Char.ofNat n) = true → isBlank (Char.ofNat n) = false →
      isIdentifierStart (Char.ofNat n) = false ∧ (Char.ofNat n).isDigit = false ∧
        Char.ofNat n ∉ ['"', '\'', '`', '/', '.', '='] ∧ punctuation (Char.ofNat n) = none := by
    decide +kernel
  have hlt : c.toNat < 0x80 := by
    simp only [isControl, Bool.or_eq_true, decide_eq_true_eq] at hc
    omega
  have hchar := hall c.toNat hlt
  rw [Char.ofNat_toNat] at hchar
  exact hchar hc hblank

theorem obstacle_of_read (h : read allowed c cs = .broken fault) : Obstacle fault (c :: cs) := by
  unfold read at h
  split at h
  · cases h
  rename_i hblank
  split at h
  · cases h
  rename_i hstart
  split at h
  · cases h
  rename_i hdigit
  have hclosed : ∀ {make : List Char → Lexeme} {first : List Char} {body : Option (List Char)}
      {own : SyntaxFault}, (∀ text, make text ≠ .broken fault) →
      closed own make first body = .broken fault → body = none ∧ own = fault := by
    intro make first body own hmake hbroken
    cases body with
    | some text => exact absurd hbroken (hmake _)
    | none => exact ⟨rfl, Lexeme.broken.inj hbroken⟩
  split at h
  · obtain ⟨hnone, rfl⟩ := hclosed (fun text => token_ne_broken _ text _) h
    exact .string (.inl rfl) ((quoted_eq_none (.inl rfl)).mp hnone)
  · obtain ⟨hnone, rfl⟩ := hclosed (fun text => token_ne_broken _ text _) h
    exact .string (.inr rfl) ((quoted_eq_none (.inr rfl)).mp hnone)
  · obtain ⟨hnone, rfl⟩ := hclosed (fun text => token_ne_broken _ text _) h
    exact .template (template_eq_none.mp hnone)
  · unfold afterSlash at h
    split at h
    · cases h
    · obtain ⟨hnone, rfl⟩ := hclosed (fun text => blank_ne_broken text _) h
      exact .comment (comment_eq_none.mp hnone)
    · split at h <;> cases h
  · rw [afterPoint_eq] at h
    split at h
    · cases h
    · split at h <;> cases h
  · rw [afterEquals_eq] at h
    split at h <;> cases h
  · rename_i hdouble hsingle hback hslash hpoint hequals
    split at h
    · cases h
    rename_i hmark
    cases h
    have hnarrow : c.toNat < 0x80 := by
      simp only [isIdentifierStart, Bool.or_eq_true, decide_eq_true_eq, not_or] at hstart
      omega
    rcases character_cases hnarrow with hcase | hcase | hcase | hcase | hcase | hcase
    · exact absurd hcase hblank
    · exact absurd hcase hstart
    · exact absurd hcase hdigit
    · simp only [List.mem_cons, List.not_mem_nil, or_false] at hcase
      rcases hcase with hc | hc | hc | hc | hc | hc
      · exact absurd hc hdouble
      · exact absurd hc hsingle
      · exact absurd hc hback
      · exact absurd hc hslash
      · exact absurd hc hpoint
      · exact absurd hc hequals
    · rw [hmark] at hcase
      cases hcase
    · exact .control hcase (Bool.eq_false_iff.mpr hblank)

theorem Obstacle.read_eq (h : Obstacle fault (c :: cs)) (allowed : Bool) :
    read allowed c cs = .broken fault := by
  cases h with
  | comment hopen =>
    change closed .unclosedComment .blank ['/', '*'] (Lexeme.comment _) = _
    rw [comment_eq_none.mpr hopen]
    rfl
  | template hopen =>
    change closed .unclosedTemplate (.token .template) ['`'] (Lexeme.template false cs) = _
    rw [template_eq_none.mpr hopen]
    rfl
  | string hquote hopen =>
    have hnone := (quoted_eq_none hquote).mpr hopen
    rcases hquote with rfl | rfl
    · change closed (.strayCharacter '"') (.token .string) ['"'] (quoted '"' false cs) = _
      rw [hnone]
      rfl
    · change closed (.strayCharacter '\'') (.token .string) ['\''] (quoted '\'' false cs) = _
      rw [hnone]
      rfl
  | control hc hblank =>
    obtain ⟨hstart, hdigit, hmarks, hmark⟩ := control_begins_nothing hc hblank
    simp only [List.mem_cons, List.not_mem_nil, or_false, not_or] at hmarks
    simp [read, hblank, hstart, hdigit, hmark, hmarks]

end

end Lexeme

namespace Token

/-! ## The place that is reached -/

/-- Scanning `before ++ rest`, which begins at `offset` behind `previous`, comes to the beginning of
`rest`, and `tokens` are found up to there. -/
inductive Reaches (rest : List Char) : (previous : Option Token) → (offset : Nat) →
    (before : List Char) → (tokens : List Token) → Prop where
  | here {previous : Option Token} {offset : Nat} : Reaches rest previous offset [] []
  | blank {previous : Option Token} {offset : Nat} {c : Char} {tail before : List Char}
      {tokens : List Token}
      (hrule : Lexeme.Rule (regexAllowed previous) c (tail ++ (before ++ rest))
        (.blank (c :: tail)))
      (hmore : Reaches rest previous (offset + byteLength (c :: tail)) before tokens) :
      Reaches rest previous offset (c :: (tail ++ before)) tokens
  | token {previous : Option Token} {offset : Nat} {kind : Kind} {c : Char}
      {tail before : List Char} {tokens : List Token}
      (hrule : Lexeme.Rule (regexAllowed previous) c (tail ++ (before ++ rest))
        (.token kind (c :: tail)))
      (hmore : Reaches rest (some ⟨kind, String.ofList (c :: tail), offset⟩)
        (offset + byteLength (c :: tail)) before tokens) :
      Reaches rest previous offset (c :: (tail ++ before))
        (⟨kind, String.ofList (c :: tail), offset⟩ :: tokens)

variable {previous : Option Token} {offset : Nat} {cs before rest : List Char}
  {tokens : List Token} {fault : SyntaxFault}

/-- The text in front of a place that is reached can be read without the rest. -/
theorem Reaches.scans (h : Reaches rest previous offset before tokens) :
    Scans previous offset before tokens := by
  induction h with
  | here => exact .done
  | @blank _ _ c tail before _ hrule _ ih =>
    refine .blank (Lexeme.Rule.cut_blank (v := rest) ?_ ?_) ih
    · rwa [List.append_assoc]
    · simp
  | @token _ _ _ c tail before _ hrule _ ih =>
    refine .token (Lexeme.Rule.cut (v := rest) ?_ ?_) ih
    · rwa [List.append_assoc]
    · simp

/-- A scanner that comes to an obstacle stops there. -/
theorem Reaches.scanFrom_eq_error (h : Reaches rest previous offset before tokens)
    (hobstacle : Lexeme.Obstacle fault rest) :
    scanFrom previous offset 0 (before ++ rest) = .error (fault, offset + byteLength before) := by
  induction h with
  | here =>
    cases rest with
    | nil => cases hobstacle
    | cons c rest => rw [List.nil_append, scanFrom, hobstacle.read_eq, byteLength_nil, Nat.add_zero]
  | blank hrule _ ih =>
    rw [List.cons_append, List.append_assoc, scanFrom_blank hrule, ih, ← List.cons_append,
      byteLength_append, Nat.add_assoc]
  | token hrule _ ih =>
    rw [List.cons_append, List.append_assoc, scanFrom_token hrule, ih, ← List.cons_append,
      byteLength_append, Nat.add_assoc]
    rfl

/-- A text falls into lexemes up to its end or up to an obstacle. -/
theorem scans_or_reaches (previous : Option Token) (offset : Nat) (cs : List Char) :
    (∃ tokens, Scans previous offset cs tokens) ∨
      ∃ before rest tokens fault, cs = before ++ rest ∧
        Reaches rest previous offset before tokens ∧ Lexeme.Obstacle fault rest := by
  induction hlen : cs.length using Nat.strongRecOn generalizing previous offset cs with
  | ind n ih =>
    cases cs with
    | nil => exact .inl ⟨[], .done⟩
    | cons c cs =>
      rcases Lexeme.read_cases (regexAllowed previous) c cs with
        ⟨tail, more, rfl, hrule⟩ | ⟨kind, tail, more, rfl, hrule⟩ | ⟨fault, hread⟩
      · rcases ih more.length (by simp at hlen; omega) previous _ more rfl with
          ⟨tokens, h⟩ | ⟨before, rest, tokens, fault, rfl, h, hobstacle⟩
        · exact .inl ⟨tokens, .blank hrule h⟩
        · refine .inr ⟨c :: (tail ++ before), rest, tokens, fault, by simp, ?_, hobstacle⟩
          exact .blank hrule h
      · rcases ih more.length (by simp at hlen; omega)
            (some ⟨kind, String.ofList (c :: tail), offset⟩) _ more rfl with
          ⟨tokens, h⟩ | ⟨before, rest, tokens, fault, rfl, h, hobstacle⟩
        · exact .inl ⟨_, .token hrule h⟩
        · exact .inr ⟨c :: (tail ++ before), rest, _, fault, by simp, .token hrule h, hobstacle⟩
      · exact .inr ⟨[], c :: cs, [], fault, rfl, .here, Lexeme.obstacle_of_read hread⟩

theorem Reaches.scan_eq_error (h : Reaches rest none 0 before tokens)
    (hobstacle : Lexeme.Obstacle fault rest) : scan (before ++ rest)
      = .error (SyntaxError.atOffset (before ++ rest) (byteLength before) fault) := by
  have hscan := h.scanFrom_eq_error hobstacle
  rw [Nat.zero_add] at hscan
  rw [scan, hscan]

theorem reaches_of_scan {e : SyntaxError} (h : scan cs = .error e) :
    ∃ before rest tokens, cs = before ++ rest ∧ Reaches rest none 0 before tokens ∧
      Lexeme.Obstacle e.fault rest ∧ e = SyntaxError.atOffset cs (byteLength before) e.fault := by
  rcases scans_or_reaches none 0 cs with
    ⟨tokens, hscans⟩ | ⟨before, rest, tokens, fault, rfl, hreaches, hobstacle⟩
  · rw [scan_eq_ok.mpr (scanFrom_eq_ok.mpr hscans)] at h
    cases h
  · rw [hreaches.scan_eq_error hobstacle] at h
    cases h
    exact ⟨before, rest, tokens, rfl, hreaches, hobstacle, rfl⟩

/-- Scanning fails where it must and nowhere else. Where it stops, the text before has been read and
an obstacle comes next; a place with an obstacle to which scanning comes is where it stops; and
printable characters are no obstacles unless they open something. -/
theorem scan_stops_at_obstacles (text : List Char) :
    (∀ e, scan text = .error e → ∃ before rest tokens, text = before ++ rest ∧
      Reaches rest none 0 before tokens ∧ scan before = .ok tokens ∧
      Lexeme.Obstacle e.fault rest ∧
      e = SyntaxError.atOffset text (byteLength before) e.fault) ∧
    (∀ before rest tokens fault, text = before ++ rest → Reaches rest none 0 before tokens →
      Lexeme.Obstacle fault rest →
      scan text = .error (SyntaxError.atOffset text (byteLength before) fault)) ∧
    ((∀ c ∈ text, Lexeme.isControl c = true → Lexeme.isBlank c = true) →
      (∀ mark ∈ ['"', '\'', '`'], mark ∉ text) → ¬ ['/', '*'] <:+: text →
      ∃ tokens, scan text = .ok tokens) := by
  refine ⟨fun e he => ?_, ?_, fun hcontrol hmarks hcomment => ?_⟩
  · obtain ⟨before, rest, tokens, htext, hreaches, hobstacle, hplace⟩ := reaches_of_scan he
    have hbefore := scan_eq_ok.mpr (scanFrom_eq_ok.mpr hreaches.scans)
    exact ⟨before, rest, tokens, htext, hreaches, hbefore, hobstacle, hplace⟩
  · rintro before rest tokens fault rfl hreaches hobstacle
    exact hreaches.scan_eq_error hobstacle
  · cases hscan : scan text with
    | ok tokens => exact ⟨tokens, rfl⟩
    | error e =>
      obtain ⟨before, rest, tokens, rfl, -, hobstacle, -⟩ := reaches_of_scan hscan
      exfalso
      generalize e.fault = fault at hobstacle
      cases hobstacle with
      | @comment rest _ => exact hcomment ⟨before, rest, by simp⟩
      | template _ => exact hmarks '`' (by decide) (by simp)
      | @string quote _ hquote _ =>
        have hmem : quote ∈ ['"', '\'', '`'] := by
          rcases hquote with rfl | rfl <;> decide
        exact hmarks quote hmem (by simp)
      | @control c _ hc hblank =>
        rw [hcontrol c (by simp) hc] at hblank
        cases hblank

/-- A string that would go on behind an escaped line feed is an obstacle. -/
theorem scan_stops_at_obstacles_example :
    ∃ text before rest tokens, text = "\u00e9 /b/ 'it\\\ns'".toList ∧
      scan text = .error ⟨.strayCharacter '\'', 7, ⟨1, 7⟩⟩ ∧ text = before ++ rest ∧
      Reaches rest none 0 before tokens ∧ scan before = .ok tokens ∧
      Lexeme.Obstacle (.strayCharacter '\'') rest ∧ byteLength before = 7 := by
  generalize htext : "\u00e9 /b/ 'it\\\ns'".toList = text
  have hscan : scan text = .error ⟨.strayCharacter '\'', 7, ⟨1, 7⟩⟩ := by
    subst htext
    decide +kernel
  obtain ⟨before, rest, tokens, hparts, hreaches, hbefore, hobstacle, hplace⟩ :=
    (scan_stops_at_obstacles text).1 _ hscan
  exact ⟨text, before, rest, tokens, rfl, hscan, hparts, hreaches, hbefore, hobstacle,
    (congrArg SyntaxError.offset hplace).symm⟩

end Token
end AliasCheck
