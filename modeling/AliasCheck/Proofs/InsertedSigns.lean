import AliasCheck.Proofs.Comments
import AliasCheck.Proofs.ErrorPlaces
import AliasCheck.Proofs.VarianceSigns

/-!
# Signs in a source

A sign with blanks around it may be put in front of a member in a source. It does not go on with the
token in front of it, nor does it make or break a library declaration, so the source has the same
tokens as before and the sign. Only slashes need a closer look: a slash is a token of its own as
long as nothing behind it on its line closes a regular expression, and a sign closes none. With
this, what has been shown of signs among tokens holds of signs in the text of a source.
-/

namespace AliasCheck

/-! ## Places in a text -/

section Splits

variable {a b u w : List Char}

theorem byteLength_eq_zero : byteLength u = 0 ↔ u = [] := by
  cases u with
  | nil => simp
  | cons c u =>
    have hc := c.utf8Size_pos
    simp only [byteLength_cons, List.cons_ne_nil, iff_false]
    omega

/-- A part of a text that ends no later than another one. -/
theorem exists_append_of_byteLength_le (h : a ++ b = u ++ w) (hle : byteLength a ≤ byteLength u) :
    ∃ more, u = a ++ more ∧ b = more ++ w := by
  rcases List.append_eq_append_iff.mp h with hmore | ⟨cut, rfl, rfl⟩
  · exact hmore
  · rw [byteLength_append] at hle
    cases byteLength_eq_zero.mp (by omega : byteLength cut = 0)
    exact ⟨[], by simp, rfl⟩

theorem append_inj_byteLength (h : a ++ b = u ++ w) (hlen : byteLength a = byteLength u) :
    a = u ∧ b = w := by
  obtain ⟨more, rfl, rfl⟩ := exists_append_of_byteLength_le h (Nat.le_of_eq hlen)
  rw [byteLength_append] at hlen
  cases byteLength_eq_zero.mp (by omega : byteLength more = 0)
  simp

end Splits

/-! ## Library declarations -/

namespace Blanking

variable {inside : Bool} {before last rest u v b w : List Char} {d e i : Char}

/-- What is not blank has been left as it is, and so has all of its line in front of it. -/
theorem kept_of_blank (hd : Lexeme.isBlank d = false) (hline : '\n' ∉ last)
    (h : blank inside (last ++ d :: rest) = u ++ d :: v) (hlen : byteLength u = byteLength last) :
    inside = false ∧ u = last ∧ blank false (d :: rest) = d :: v ∧
      ∀ a b, last = a ++ b → b ≠ [] → startsWithMark (b ++ d :: rest) = false := by
  induction last generalizing inside u with
  | nil =>
    cases byteLength_eq_zero.mp hlen
    rw [List.nil_append, List.nil_append] at h
    have hkept := h
    rw [blank] at h
    split at h
    · rename_i hd'
      rw [hd'] at hd
      cases hd
    · split at h
      · obtain ⟨n, hn⟩ := spaces_cons d
        rw [hn] at h
        cases h
        cases hd
      · rename_i hmark
        rw [Bool.not_eq_true, Bool.or_eq_false_iff] at hmark
        obtain ⟨rfl, -⟩ := hmark
        refine ⟨rfl, rfl, hkept, ?_⟩
        rintro a b hab hb
        exact absurd (List.append_eq_nil_iff.mp hab.symm).2 hb
  | cons c last ih =>
    rw [List.mem_cons, not_or] at hline
    rw [List.cons_append, blank, if_neg (Ne.symm hline.1)] at h
    rw [byteLength_cons] at hlen
    split at h
    · -- Then the line would be overwritten to its end.
      obtain ⟨more, rfl, hmore⟩ := exists_append_of_byteLength_le h
        (by rw [byteLength_spaces]; omega)
      rw [byteLength_append, byteLength_spaces] at hlen
      obtain ⟨hfalse, -⟩ := ih hline.2 hmore (by omega)
      cases hfalse
    · rename_i hmark
      rw [Bool.not_eq_true, Bool.or_eq_false_iff] at hmark
      cases u with
      | nil =>
        have hc := c.utf8Size_pos
        rw [byteLength_nil] at hlen
        omega
      | cons c' u =>
        rw [List.cons_append, List.cons.injEq] at h
        obtain ⟨rfl, h⟩ := h
        rw [byteLength_cons] at hlen
        obtain ⟨-, rfl, hrest, hmarks⟩ := ih hline.2 h (by omega)
        refine ⟨hmark.1, rfl, hrest, fun a b hab hb => ?_⟩
        cases a with
        | nil =>
          cases hab
          exact hmark.2
        | cons a' a =>
          cases hab
          exact hmarks a b rfl hb

/-- In the mark, a blank stands behind letters only. -/
theorem isAlpha_of_blank_in_mark : ∀ n < mark.length,
    Lexeme.isBlank (mark.getD (n + 1) 'd') = true → (mark.getD n 'd').isAlpha = true := by
  decide

/-- No mark comes about where a blank is put behind a character that is no letter. -/
theorem noMark_of_blank (h : startsWithMark (b ++ w) = false) (hlast : b.getLast? = some e)
    (he : e.isAlpha = false) (hi : Lexeme.isBlank i = true) (more : List Char) :
    startsWithMark (b ++ i :: more) = false := by
  refine Bool.eq_false_iff.mpr fun hmark => ?_
  rcases Nat.lt_or_ge b.length mark.length with hlt | hge
  · obtain ⟨front, rfl⟩ := List.getLast?_eq_some_iff.mp hlast
    have hprefix := startsWithMark_eq_true.mp hmark
    have hchar : ∀ n < mark.length,
        mark.getD n 'd' = ((front ++ e :: i :: more).map Char.toLower).getD n 'd' := by
      intro n hn
      rw [List.append_assoc, List.singleton_append] at hprefix
      rw [List.getD_eq_getElem?_getD, List.prefix_iff_eq_take.mp hprefix,
        List.getElem?_take_of_lt (by simpa using hn), List.getD_eq_getElem?_getD]
    rw [List.length_append, List.length_singleton] at hlt
    have hletter := isAlpha_of_blank_in_mark front.length (by omega)
    rw [hchar _ hlt, hchar _ (by omega)] at hletter
    have hblank : Lexeme.isBlank i.toLower = true := by
      simpa using
        Lexeme.eq_false_of_isBlank (p := fun c => !Lexeme.isBlank c.toLower) (by decide) hi
    have hnot := isAlpha_of_toLower (c := e) (by simpa [hblank] using hletter)
    rw [he] at hnot
    cases hnot
  · rw [startsWithMark, List.take_append_of_le_length hge] at h hmark
    rw [h] at hmark
    cases hmark

/-- What is put in front of a token is not overwritten, and everything else is left as it was. -/
theorem blank_insert {ins : List Char} (hd : Lexeme.isBlank d = false)
    (h : blank false (before ++ d :: rest) = u ++ d :: v) (hlen : byteLength u = byteLength before)
    (hlast : ∀ e, u.getLast? = some e → e.isAlpha = false)
    (hins : ∀ c ∈ i :: ins, c.toLower ≠ 'd') (hi : Lexeme.isBlank i = true) :
    blank false (before ++ (i :: ins ++ d :: rest)) = u ++ (i :: ins ++ d :: v) := by
  have hinserted : blank false (i :: ins ++ d :: rest) = i :: ins ++ blank false (d :: rest) := by
    refine blank_append_of_noMark fun a b hab hb => ?_
    obtain ⟨c, b, rfl⟩ := List.exists_cons_of_ne_nil hb
    exact noMark_of_toLower (hins c (by rw [hab]; simp))
  -- Only the line on which the token stands matters.
  have honLine : ∀ {last u}, '\n' ∉ last → blank false (last ++ d :: rest) = u ++ d :: v →
      byteLength u = byteLength last → (∀ e, u.getLast? = some e → e.isAlpha = false) →
      blank false (last ++ (i :: ins ++ d :: rest)) = u ++ (i :: ins ++ d :: v) := by
    intro last u hline h hlen hlast
    obtain ⟨-, rfl, hrest, hmarks⟩ := kept_of_blank hd hline h hlen
    rw [blank_append_of_noMark, hinserted, hrest]
    intro a b hab hb
    have hend := List.getLast?_eq_some_getLast hb
    refine noMark_of_blank (hmarks a b hab hb) hend (hlast _ ?_) hi (ins ++ d :: rest)
    rw [hab, List.getLast?_append_of_ne_nil _ hb, hend]
  rcases exists_last_line before with hline | ⟨lines, last, rfl, hline⟩
  · exact honLine hline h hlen hlast
  · rw [List.append_assoc, List.cons_append, blank_append] at h
    rw [List.append_assoc, List.cons_append, blank_append]
    have hlines := byteLength_blank false lines
    rw [byteLength_append, byteLength_cons] at hlen
    obtain ⟨more, rfl, hmore⟩ := exists_append_of_byteLength_le h (by rw [hlines]; omega)
    rw [byteLength_append] at hlen
    cases more with
    | nil =>
      rw [byteLength_nil] at hlen
      have hnewline := Char.utf8Size_pos '\n'
      omega
    | cons c more =>
      rw [List.cons_append, List.cons.injEq] at hmore
      obtain ⟨rfl, hmore⟩ := hmore
      rw [byteLength_cons] at hlen
      have hend : ∀ e, more.getLast? = some e → e.isAlpha = false := by
        intro e he
        refine hlast e ?_
        rw [List.getLast?_append_of_ne_nil _ (List.cons_ne_nil '\n' more), List.getLast?_cons, he]
        rfl
      rw [honLine hline hmore (by omega) hend, List.append_assoc, List.cons_append]
      rfl

end Blanking

/-! ## Lexemes -/

namespace Lexeme

variable {allowed : Bool} {kind : Token.Kind} {c i : Char} {cs tail u w ins : List Char}

/-- The character neither closes a regular expression nor escapes or encloses what does. -/
def Inert (c : Char) : Prop := c ∉ ['\\', '[', ']', '/']

theorem regex_inert {inClass : Bool} (hins : ∀ c ∈ ins, Inert c)
    (h : regex false inClass w = none) : regex false inClass (ins ++ w) = none := by
  induction ins with
  | nil => exact h
  | cons c ins ih =>
    rw [List.forall_mem_cons] at hins
    rw [List.cons_append, regex_cons]
    have hc := hins.1
    simp only [Inert, List.mem_cons, List.not_mem_nil, or_false, not_or] at hc
    by_cases hline : c = '\n' ∨ c = '\r'
    · rw [regexStep, if_pos hline]
    · rw [regexStep, if_neg hline, if_neg Bool.false_ne_true, if_neg hc.1, if_neg hc.2.1,
        if_neg hc.2.2.1, if_neg fun h => hc.2.2.2 h.1]
      dsimp only
      rw [ih hins.2]
      rfl

/-- Only a backslash escapes what comes next. -/
theorem not_escaped_of_step {escaped inClass b b' : Bool} (hc : c ≠ '\\')
    (h : regexStep escaped inClass c = .goes b b') : b = false := by
  unfold regexStep at h
  rw [if_neg hc] at h
  repeat' split at h
  all_goals cases h
  all_goals rfl

/-- Where no regular expression is closed, none is when such characters are put in. -/
theorem regex_insert {escaped inClass : Bool} (h : regex escaped inClass (u ++ w) = none)
    (hescaped : u = [] → escaped = false) (hlast : ∀ e, u.getLast? = some e → e ≠ '\\')
    (hins : ∀ c ∈ ins, Inert c) : regex escaped inClass (u ++ (ins ++ w)) = none := by
  induction u generalizing escaped inClass with
  | nil =>
    cases hescaped rfl
    rw [List.nil_append] at h ⊢
    exact regex_inert hins h
  | cons c u ih =>
    refine regex_cons_eq_none_of h fun b b' hstep hmore => ih hmore ?_ ?_
    · rintro rfl
      exact not_escaped_of_step (hlast c rfl) hstep
    · intro e he
      refine hlast e ?_
      rw [List.getLast?_cons, he]
      rfl

/-- What is put in behind a token does not change it if it begins with a blank. -/
theorem Rule.insert (h : Rule allowed c (tail ++ (u ++ w)) (.token kind (c :: tail)))
    (hlast : ∀ e, u.getLast? = some e → e ≠ '\\') (hi : isBlank i = true)
    (hins : ∀ c ∈ i :: ins, Inert c) :
    Rule allowed c (tail ++ (u ++ (i :: ins ++ w))) (.token kind (c :: tail)) := by
  by_cases hslash : kind = .slash
  · subst hslash
    refine h.exchange_slash (fun e he hne => ?_) fun h => regex_insert h (fun _ => rfl) hlast hins
    exact head?_append_ne (head?_ne_of_append hne) (ne_of_isBlank hi he) (ins ++ w)
  · rw [← List.append_assoc] at h ⊢
    refine (h.cut ?_).append_blank hslash hi (ins ++ w)
    rw [List.length_cons, List.length_append]
    omega

end Lexeme

/-! ## Tokens -/

namespace Token

variable {previous : Option Token} {offset : Nat} {d : Char} {u v w ins : List Char}
  {front us tokens : List Token} {t q : Token}

/-- Of what stands behind a gap, only matters whether it is the end of a line. -/
theorem Gap.congr {after after' gap : List Char} (h : Gap after gap)
    (hend : (∀ d, after.head? = some d → d = '\n') → ∀ d, after'.head? = some d → d = '\n') :
    Gap after' gap := by
  induction h with
  | nil => exact .nil
  | blank hc _ ih => exact .blank hc ih
  | @lineComment body gap hbody hline _ ih =>
    refine .lineComment hbody ?_ ih
    cases gap with
    | nil => exact hend hline
    | cons c gap => exact hline
  | blockComment hbody _ ih => exact .blockComment hbody ih

/-- A gap in front of a token ends with a blank or with a comment that is closed. -/
theorem Gap.last {gap : List Char} (h : Gap (d :: v) gap) (hd : Lexeme.isBlank d = false) {e : Char}
    (he : gap.getLast? = some e) : Lexeme.isBlank e = true ∨ e = '/' := by
  -- What is in front of the rest of the gap only counts if there is no rest.
  have hfront : ∀ lead {c gap}, (lead ++ c :: gap).getLast? = some e →
      (gap = [] ∧ c = e) ∨ gap.getLast? = some e := by
    intro lead c gap h
    rw [List.getLast?_append_of_ne_nil _ (List.cons_ne_nil c gap)] at h
    cases gap with
    | nil => exact .inl ⟨rfl, Option.some.inj h⟩
    | cons c' gap => exact .inr (by rwa [List.getLast?_cons_cons] at h)
  induction h with
  | nil => cases he
  | @blank c gap hc _ ih =>
    rcases hfront [] he with ⟨-, rfl⟩ | he
    · exact .inl hc
    · exact ih he
  | @lineComment body gap hbody hline _ ih =>
    cases gap with
    | nil =>
      cases hline d rfl
      cases hd
    | cons c gap =>
      refine ih ?_
      rwa [← List.cons_append, ← List.cons_append,
        List.getLast?_append_of_ne_nil _ (List.cons_ne_nil c gap)] at he
  | @blockComment body gap _ _ ih =>
    have hsplit : '/' :: '*' :: (body ++ '*' :: '/' :: gap)
        = ('/' :: '*' :: (body ++ ['*'])) ++ '/' :: gap := by simp
    rw [hsplit] at he
    rcases hfront _ he with ⟨-, rfl⟩ | he
    · exact .inr rfl
    · exact ih he

/-! ## A place in front of a token -/

/-- What is read in front of a token ends where the token begins, or before it. -/
theorem Scans.exists_between {first rest : List Char}
    (h : Scans previous (offset + byteLength first) rest tokens) (ht : t ∈ tokens)
    (hstart : t.start = offset + byteLength u) (htext : u ++ w = first ++ rest) :
    ∃ between, u = first ++ between ∧ rest = between ++ w := by
  obtain ⟨-, -, before, -, -, hbefore⟩ := h.tiles.stands ht
  exact exists_append_of_byteLength_le htext.symm (by omega)

/-- The scanner comes to each of its tokens. -/
theorem Scans.reaches (h : Scans previous offset (u ++ w) (front ++ t :: us))
    (hstart : t.start = offset + byteLength u) :
    Reaches w previous offset u front ∧
      Scans (front.getLast?.or previous) (offset + byteLength u) w (t :: us) := by
  generalize htext : u ++ w = text at h
  generalize htokens : front ++ t :: us = tokens at h
  induction h generalizing u front with
  | done => simp at htokens
  | @blank previous offset c tail rest _ hrule hrest ih =>
    subst htokens
    rw [← List.cons_append] at htext
    obtain ⟨between, rfl, rfl⟩ := hrest.exists_between (by simp) hstart htext
    rw [byteLength_append, ← Nat.add_assoc] at hstart ⊢
    obtain ⟨hreaches, hscans⟩ := ih hstart rfl rfl
    exact ⟨.blank hrule hreaches, hscans⟩
  | @token previous offset kind c tail rest tokens hrule hrest ih =>
    cases front with
    | nil =>
      obtain ⟨rfl, rfl⟩ := List.cons.inj htokens
      cases byteLength_eq_zero.mp (by dsimp only at hstart; omega : byteLength u = 0)
      cases htext
      exact ⟨.here, .token hrule hrest⟩
    | cons q front =>
      obtain ⟨rfl, rfl⟩ := List.cons.inj htokens
      rw [← List.cons_append] at htext
      obtain ⟨between, rfl, rfl⟩ := hrest.exists_between (by simp) hstart htext
      rw [byteLength_append, ← Nat.add_assoc] at hstart ⊢
      obtain ⟨hreaches, hscans⟩ := ih hstart rfl rfl
      rw [getLast?_cons_or]
      exact ⟨.token hrule hreaches, hscans⟩

/-- Marks stand alone in their tokens. -/
theorem text_of_mark {allowed : Bool} {kind : Kind} {c : Char} {cs tail : List Char}
    (h : Lexeme.Rule allowed c cs (.token kind (c :: tail)))
    (hkind : kind ∈ [.openBrace, .pipe, .semicolon, .comma]) :
    tail = [] ∧ c ∈ ['{', '|', ';', ','] := by
  generalize htext : c :: tail = text at h
  cases h with
  | mark hc =>
    obtain rfl := (List.cons.inj htext).2
    refine ⟨rfl, ?_⟩
    unfold Lexeme.punctuation at hc
    split at hc <;> cases hc <;> simp at hkind ⊢
  | _ => simp at hkind

/-- In front of a token that stands behind a mark, there is no letter and no backslash. -/
theorem Reaches.last (h : Reaches (d :: v) previous offset u front)
    (hd : Lexeme.isBlank d = false)
    (hfront : ∀ q, front.getLast? = some q → q.kind ∈ [.openBrace, .pipe, .semicolon, .comma])
    {e : Char} (he : u.getLast? = some e) : e.isAlpha = false ∧ e ≠ '\\' := by
  induction h with
  | here => cases he
  | @blank _ _ c tail before _ hrule _ ih =>
    cases before with
    | nil =>
      rcases (Gap.of_rule hrule).last hd (by rwa [List.append_nil] at he) with hblank | rfl
      · have hplain : (!e.isAlpha && e != '\\') = true := by
          simpa using Lexeme.eq_false_of_isBlank (p := fun e => !(!e.isAlpha && e != '\\'))
            (by decide) hblank
        simpa using hplain
      · decide
    | cons b before =>
      rw [← List.cons_append, List.getLast?_append_of_ne_nil _ (List.cons_ne_nil b before)] at he
      exact ih hfront he
  | @token _ offset kind c tail before tokens hrule hmore ih =>
    cases before with
    | nil =>
      cases hmore
      obtain ⟨rfl, hc⟩ := text_of_mark hrule (hfront _ rfl)
      cases he
      revert hc
      simp only [List.mem_cons, List.not_mem_nil, or_false]
      rintro (rfl | rfl | rfl | rfl) <;> decide
    | cons b before =>
      rw [← List.cons_append, List.getLast?_append_of_ne_nil _ (List.cons_ne_nil b before)] at he
      refine ih (fun q hq => hfront q ?_) he
      rw [List.getLast?_cons, hq]
      rfl

/-- A sign that is put in front of a token does not change what stands before it. -/
theorem Reaches.insert (h : Reaches (d :: v) previous offset u front)
    (hd : Lexeme.isBlank d = false) (hlast : ∀ e, u.getLast? = some e → e ≠ '\\')
    {i : Char} (hi : Lexeme.isBlank i = true) (hins : ∀ c ∈ i :: ins, Lexeme.Inert c)
    (hbehind : Scans (front.getLast?.or previous) (offset + byteLength u) (i :: ins ++ d :: v) us) :
    Scans previous offset (u ++ (i :: ins ++ d :: v)) (front ++ us) := by
  have hbefore : ∀ {first before : List Char},
      (∀ e, (first ++ before).getLast? = some e → e ≠ '\\') →
      ∀ e, before.getLast? = some e → e ≠ '\\' := by
    intro first before h e he
    exact h e (by rw [List.getLast?_append, he]; rfl)
  induction h with
  | here => exact hbehind
  | @blank _ _ c tail before _ hrule _ ih =>
    rw [← List.cons_append] at hlast hbehind ⊢
    rw [byteLength_append, ← Nat.add_assoc] at hbehind
    rw [List.append_assoc]
    refine .of_gap ((Gap.of_rule hrule).congr fun hline => ?_) (ih (hbefore hlast) hbehind)
    cases before with
    | nil =>
      cases hline d rfl
      cases hd
    | cons b before => exact hline
  | @token _ _ kind c tail before tokens hrule hmore ih =>
    rw [← List.cons_append] at hlast hbehind
    rw [byteLength_append, ← Nat.add_assoc, getLast?_cons_or] at hbehind
    have hscans := ih (hbefore hlast) hbehind
    have hinserted := Scans.token (hrule.insert (hbefore hlast) hi hins) hscans
    rwa [List.cons_append, List.append_assoc, List.cons_append]

/-! ## Signs -/

/-- The text is that of a sign of variance with blanks in front of it, and maybe behind it. -/
def IsSpacedSign (ins : List Char) : Prop :=
  ∃ before sign after, ins = before ++ sign :: after ∧ before ≠ [] ∧
    (∀ c ∈ before ++ after, Lexeme.isBlank c = true) ∧ (sign = '+' ∨ sign = '-')

theorem IsSpacedSign.exists_cons (h : IsSpacedSign ins) : ∃ i more, ins = i :: more ∧
    Lexeme.isBlank i = true ∧ ∀ c ∈ i :: more, Lexeme.Inert c ∧ c.toLower ≠ 'd' := by
  obtain ⟨before, sign, after, rfl, hne, hblank, hsign⟩ := h
  obtain ⟨i, before, rfl⟩ := List.exists_cons_of_ne_nil hne
  refine ⟨i, before ++ sign :: after, rfl, hblank i (by simp), fun c hc => ?_⟩
  have hother : (['\\', '[', ']', '/'].contains c || c.toLower == 'd') = false := by
    have hcases : c = sign ∨ Lexeme.isBlank c = true := by
      rw [← List.cons_append] at hc
      rcases List.mem_append.mp hc with hc | hc
      · exact .inr (hblank c (List.mem_append_left _ hc))
      · refine (List.mem_cons.mp hc).imp_right fun hc => hblank c ?_
        exact List.mem_append_right _ hc
    rcases hcases with rfl | hc
    · rcases hsign with rfl | rfl <;> decide
    · exact Lexeme.eq_false_of_isBlank
        (p := fun c => ['\\', '[', ']', '/'].contains c || c.toLower == 'd') (by decide) hc
  simpa [Lexeme.Inert] using hother

/-- The scanner reads the sign, and what is behind it as before. -/
theorem IsSpacedSign.scans (h : IsSpacedSign ins) (hallowed : regexAllowed previous = true)
    (hw : Scans previous offset w tokens) : ∃ s again, s.IsSign ∧
      again.map content = tokens.map content ∧ Scans previous offset (ins ++ w) (s :: again) := by
  obtain ⟨before, sign, after, rfl, -, hblank, hsign⟩ := h
  rw [List.forall_mem_append] at hblank
  have hgap : ∀ {blanks : List Char} (behind : List Char),
      (∀ c ∈ blanks, Lexeme.isBlank c = true) → Gap behind blanks :=
    fun {blanks} behind hblanks => by simpa using Gap.blanks hblanks (.nil : Gap behind [])
  obtain ⟨kind, hmark, hkind⟩ : ∃ kind, Lexeme.punctuation sign = some kind ∧
      (kind = .plus ∨ kind = .minus) := by
    rcases hsign with rfl | rfl
    · exact ⟨.plus, rfl, .inl rfl⟩
    · exact ⟨.minus, rfl, .inr rfl⟩
  let s : Token := ⟨kind, String.ofList [sign], offset + byteLength before⟩
  have hsame : regexAllowed (some s) = regexAllowed previous := by
    rw [hallowed]
    rcases hkind with rfl | rfl <;> rfl
  let n := byteLength before + byteLength [sign] + byteLength after
  have hmoved := hw.moveBy n hsame
  rw [← Nat.add_assoc, ← Nat.add_assoc] at hmoved
  refine ⟨s, tokens.map (moveBy n), hkind, ?_, ?_⟩
  · rw [List.map_map]
    rfl
  · rw [List.append_assoc]
    have hrule : Lexeme.Rule (regexAllowed previous) sign ([] ++ (after ++ w))
        (.token kind [sign]) := .mark hmark
    exact .of_gap (hgap _ hblank.1) (.token hrule (.of_gap (hgap _ hblank.2) hmoved))

/-- A source with a sign in front of a token that stands behind a mark has the same tokens as
before, and the sign. -/
theorem scan_insert_sign {cs before rest : List Char}
    (h : scan (blankDeclarations cs) = .ok (front ++ t :: us))
    (hfront : ∃ q, front.getLast? = some q ∧ q.kind ∈ [.openBrace, .pipe, .semicolon, .comma])
    (hsplit : cs = before ++ rest) (hplace : byteLength before = t.start)
    (hins : IsSpacedSign ins) :
    ∃ s again, s.IsSign ∧ again.map content = (t :: us).map content ∧
      scan (blankDeclarations (before ++ (ins ++ rest))) = .ok (front ++ s :: again) := by
  have hscans := scanFrom_eq_ok.mp (scan_eq_ok.mp h)
  -- The token stands at the same place in the source as in what is left of it.
  obtain ⟨-, -, u, v, hblank, hstart⟩ := hscans.tiles.stands (t := t) (by simp)
  obtain ⟨d, tail, htext, hd⟩ := hscans.first (t := t) (by simp)
  rw [htext, List.cons_append] at hblank
  obtain ⟨before', rest', hcs, -, hbytes, -⟩ :=
    Blanking.place_of_blank (p := Position.start) hd hblank rfl fun _ => rfl
  have hbefore : byteLength before' = byteLength before := by omega
  obtain ⟨rfl, rfl⟩ := append_inj_byteLength (hcs.symm.trans hsplit) hbefore
  subst hsplit
  -- What stands in front of it is left as it is, and so is the sign.
  rw [hblank] at hscans
  obtain ⟨hreaches, hbehind⟩ := hscans.reaches hstart
  obtain ⟨q, hq, hkind⟩ := hfront
  have hallowed : regexAllowed (front.getLast?.or none) = true := by
    rw [hq, regexAllowed.eq_def]
    simp only [List.mem_cons, List.not_mem_nil, or_false] at hkind
    rcases hkind with hkind | hkind | hkind | hkind <;> simp [hkind]
  obtain ⟨s, again, hs, hcontent, hsigned⟩ := hins.scans hallowed hbehind
  obtain ⟨i, more, rfl, hi, hplain⟩ := hins.exists_cons
  have hlast := fun {e} => hreaches.last (e := e) hd (by rw [hq]; rintro _ ⟨⟩; exact hkind)
  have hinserted := hreaches.insert hd (fun e he => (hlast he).2) hi (fun c hc => (hplain c hc).1)
    hsigned
  refine ⟨s, again, hs, hcontent, ?_⟩
  rw [blankDeclarations, Blanking.blank_insert hd hblank hbytes.symm (fun e he => (hlast he).1)
    (fun c hc => (hplain c hc).2) hi]
  exact scan_eq_ok.mpr (scanFrom_eq_ok.mpr hinserted)

end Token

/-! ## Programs -/

namespace Program

open Grammar Token

variable {source : String} {p : Program} {before rest ins : List Char} {tokens us : List Token}
  {t : Token}

/-- A sign of variance in front of a member of an object type, at any depth of an alias, makes no
difference to the program if the member begins with its key, as properties and methods do. In front
of an indexer, or of any other member, a sign is refused. -/
theorem parse_insert_sign (hparse : parse source = .ok p)
    (hscan : scan (blankDeclarations source.toList) = .ok tokens)
    (hmember : ObjectMember tokens (t :: us)) (hsplit : source.toList = before ++ rest)
    (hplace : byteLength before = t.start) (hins : IsSpacedSign ins) :
    ((key? t).isSome = true → parse (String.ofList (before ++ (ins ++ rest))) = .ok p) ∧
      (key? t = none → ∃ e, parse (String.ofList (before ++ (ins ++ rest))) = .error e) := by
  obtain ⟨front, rfl, hfront, -⟩ := hmember.sign (s := ⟨.plus, "+", 0⟩) (.inl rfl)
  obtain ⟨s, again, hs, hcontent, hsigned⟩ := scan_insert_sign hscan hfront hsplit hplace hins
  have hinserted : scan (blankDeclarations (String.ofList (before ++ (ins ++ rest))).toList)
      = .ok (front ++ s :: again) := by
    rw [String.toList_ofList]
    exact hsigned
  -- With the offset of the end of the source, the sign is none of the other tokens.
  let s' : Token := { s with start := byteLength (blankDeclarations source.toList) }
  have hs' : s'.IsSign := hs
  obtain ⟨front', hsame, -, hkeeps, hneeds⟩ := hmember.sign hs'
  obtain rfl := List.append_cancel_right hsame
  have htiles := (tiles_of_scan hscan).1
  have hnodup : (front ++ s' :: t :: us).Nodup := by
    refine List.perm_middle.nodup_iff.mpr (List.nodup_cons.mpr ⟨fun hmem => ?_, htiles.nodup⟩)
    obtain ⟨hlt, hle, -⟩ := htiles.stands hmem
    have hstart : s'.start = byteLength (blankDeclarations source.toList) := rfl
    omega
  have hcontents : (front ++ s' :: t :: us).map content = (front ++ s :: again).map content := by
    have hsign : s'.content = s.content := rfl
    simp only [List.map_append, List.map_cons, hcontent, hsign]
  refine ⟨fun hkey => ?_, fun hkey => ?_⟩
  · rw [parse_eq_ok hinserted]
    refine Runs.of_content hnodup hcontents (hkeeps p (fun m r hm => hm.sign hs' hkey) ?_)
    exact (parse_eq_ok hscan).mp hparse
  · cases hresult : parse (String.ofList (before ++ (ins ++ rest))) with
    | error e => exact ⟨e, rfl⟩
    | ok q =>
      have hruns := Runs.of_content (tiles_of_scan hsigned).1.nodup hcontents.symm
        ((parse_eq_ok hinserted).mp hresult)
      obtain ⟨m, r, hm⟩ := hneeds q hruns
      obtain ⟨k, more, heq, hkey'⟩ := hm.key_of_sign hs'
      cases heq
      rw [hkey] at hkey'
      cases hkey'

/-- The method of the inner object type may have a sign, between blanks of any kind. -/
theorem parse_insert_sign_example : ∃ source p tokens t us before rest,
    source = "export type A = ?\x7b| a: \x7b m(): B \x7d[] |\x7d" ∧ parse source = .ok p ∧
      p.aliases.map Alias.name = ["A"] ∧
      scan (blankDeclarations source.toList) = .ok tokens ∧ ObjectMember tokens (t :: us) ∧
      source.toList = before ++ rest ∧ byteLength before = t.start ∧
      IsSpacedSign "\t-\n".toList ∧ (key? t).isSome = true ∧
      String.ofList (before ++ ("\t-\n".toList ++ rest))
        = "export type A = ?\x7b| a: \x7b \t-\nm(): B \x7d[] |\x7d" ∧
      parse (String.ofList (before ++ ("\t-\n".toList ++ rest))) = .ok p := by
  generalize hsource : "export type A = ?\x7b| a: \x7b m(): B \x7d[] |\x7d" = source
  have hnames : (parse source).map (fun p => p.aliases.map Alias.name) = .ok ["A"] := by
    subst hsource
    decide +kernel
  let ts : List Token := [⟨.equals, "=", 14⟩, ⟨.question, "?", 16⟩, ⟨.openBrace, "\x7b", 17⟩,
    ⟨.pipe, "|", 18⟩, ⟨.identifier, "a", 20⟩, ⟨.colon, ":", 21⟩]
  let us : List Token := [⟨.openParen, "(", 26⟩, ⟨.closeParen, ")", 27⟩, ⟨.colon, ":", 28⟩,
    ⟨.identifier, "B", 30⟩, ⟨.closeBrace, "\x7d", 32⟩, ⟨.openBracket, "[", 33⟩,
    ⟨.closeBracket, "]", 34⟩, ⟨.pipe, "|", 36⟩, ⟨.closeBrace, "\x7d", 37⟩]
  let declared : List Token := ⟨.identifier, "A", 12⟩ :: (ts ++
    ⟨.openBrace, "\x7b", 23⟩ :: ⟨.identifier, "m", 25⟩ :: us)
  have hscan : scan (blankDeclarations source.toList)
      = .ok (⟨.identifier, "export", 0⟩ :: ⟨.identifier, "type", 7⟩ :: declared) := by
    subst hsource
    decide +kernel
  obtain ⟨p, hparse, haliases⟩ := map_eq_ok.mp hnames
  have henters : EntersAlias (⟨.identifier, "export", 0⟩ :: ⟨.identifier, "type", 7⟩ :: declared)
      (⟨.identifier, "type", 7⟩ :: declared) :=
    ⟨.first (by decide) (.exported (by decide) (List.cons_ne_nil _ _) .here), by decide⟩
  have hmember : ObjectMember
      (⟨.identifier, "export", 0⟩ :: ⟨.identifier, "type", 7⟩ :: declared)
      (⟨.identifier, "m", 25⟩ :: us) :=
    ⟨_, _, ⟨_, _, _, [], henters, (declaration_eq_ok (Nat.le_refl _)).mp rfl,
      ⟨⟨.identifier, "A", 12⟩ :: ts, rfl⟩, Nat.zero_lt_succ _⟩, rfl, .first rfl⟩
  have hsplit : source.toList
      = "export type A = ?\x7b| a: \x7b ".toList ++ "m(): B \x7d[] |\x7d".toList := by
    subst hsource
    decide +kernel
  have hplace : byteLength "export type A = ?\x7b| a: \x7b ".toList = 25 := by decide +kernel
  have hins : IsSpacedSign "\t-\n".toList :=
    ⟨['\t'], '-', ['\n'], rfl, by decide, List.all_eq_true.mp rfl, .inr rfl⟩
  have hsigned := (parse_insert_sign hparse hscan hmember hsplit hplace hins).1 rfl
  exact ⟨source, p, _, _, us, _, _, rfl, hparse, haliases, hscan, hmember, hsplit, hplace, hins,
    rfl, by decide +kernel, hsigned⟩

/-- Not every sign can be put in: with a sign in front of the indexer, this source is no program. -/
theorem not_parse_insert_sign :
    ¬ ∀ (source : String) (p : Program) (tokens us : List Token) (t : Token)
      (before rest ins : List Char), parse source = .ok p →
      scan (blankDeclarations source.toList) = .ok tokens → ObjectMember tokens (t :: us) →
      (key? t).isSome = true ∨ t.kind = .openBracket →
      source.toList = before ++ rest → byteLength before = t.start → IsSpacedSign ins →
      parse (String.ofList (before ++ (ins ++ rest))) = .ok p := by
  intro h
  have hparses : (parse "type A = \x7b[k: string]: number\x7d").toOption.isSome = true := by
    decide +kernel
  have hfails : (parse "type A = \x7b + [k: string]: number\x7d").toOption.isSome = false := by
    decide +kernel
  let us : List Token := [⟨.identifier, "k", 11⟩, ⟨.colon, ":", 12⟩, ⟨.identifier, "string", 14⟩,
    ⟨.closeBracket, "]", 20⟩, ⟨.colon, ":", 21⟩, ⟨.identifier, "number", 23⟩,
    ⟨.closeBrace, "\x7d", 29⟩]
  have hscan : scan (blankDeclarations "type A = \x7b[k: string]: number\x7d".toList) = .ok
      (⟨.identifier, "type", 0⟩ :: ⟨.identifier, "A", 5⟩ :: ⟨.equals, "=", 7⟩ ::
        ⟨.openBrace, "\x7b", 9⟩ :: ⟨.openBracket, "[", 10⟩ :: us) := by
    decide +kernel
  have hmember : ObjectMember
      (⟨.identifier, "type", 0⟩ :: ⟨.identifier, "A", 5⟩ :: ⟨.equals, "=", 7⟩ ::
        ⟨.openBrace, "\x7b", 9⟩ :: ⟨.openBracket, "[", 10⟩ :: us)
      (⟨.openBracket, "[", 10⟩ :: us) :=
    ⟨_, _, ⟨_, _, _, [], ⟨.first (by decide) .here, by decide⟩,
      (declaration_eq_ok (Nat.le_refl _)).mp rfl,
      ⟨[⟨.identifier, "A", 5⟩, ⟨.equals, "=", 7⟩], rfl⟩, Nat.zero_lt_succ _⟩, rfl, .first rfl⟩
  cases hparse : parse "type A = \x7b[k: string]: number\x7d" with
  | error e =>
    rw [hparse] at hparses
    cases hparses
  | ok p =>
    have hsigned := h _ p _ us _ "type A = \x7b".toList "[k: string]: number\x7d".toList
      " + ".toList hparse hscan hmember (.inr rfl) (by decide +kernel) (by decide +kernel)
      ⟨[' '], '+', [' '], rfl, by decide, List.all_eq_true.mp rfl, .inl rfl⟩
    have hsource : String.ofList ("type A = \x7b".toList ++
        (" + ".toList ++ "[k: string]: number\x7d".toList))
          = "type A = \x7b + [k: string]: number\x7d" := by
      decide +kernel
    rw [hsource] at hsigned
    rw [hsigned] at hfails
    cases hfails

end Program
end AliasCheck
