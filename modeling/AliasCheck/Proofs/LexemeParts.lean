import AliasCheck.Token.Lexeme

/-!
# The parts of lexemes

Lexemes are made of stretches of characters of one class, as numbers are, or run to a closing mark.
What such a part takes is a beginning of the text (`Takes.front`), and it is the same in every text
that has been cut off behind it (`Takes.cut`). Whether it is the same in a longer text depends on
what comes next, and there the next character is all that matters.
-/

namespace AliasCheck

/-- A character that goes on with neither a word nor a number. -/
def Lexeme.EndsWord (d : Char) : Prop :=
  Lexeme.isIdentifierPart d = false ∧ d ≠ '.' ∧ d ≠ '+' ∧ d ≠ '-'

theorem takeWhile_append_stop {p : Char → Bool} {d : Char} (hd : p d = false)
    (cs more : List Char) : (cs ++ d :: more).takeWhile p = cs.takeWhile p := by
  induction cs with
  | nil => simp [hd]
  | cons c cs ih =>
    rw [List.cons_append, List.takeWhile_cons, List.takeWhile_cons, ih]

/-- What a longer text does not begin with, a shorter one does not begin with either. -/
theorem head?_ne_of_append {u v : List Char} {e : Char} (h : (u ++ v).head? ≠ some e) :
    u.head? ≠ some e := by
  cases u with
  | nil => exact nofun
  | cons c u => exact h

theorem head?_append_ne {cs : List Char} {d e : Char} (h : cs.head? ≠ some e) (hde : d ≠ e)
    (more : List Char) : (cs ++ d :: more).head? ≠ some e := by
  cases cs with
  | nil => exact fun hsome => hde (Option.some.inj hsome)
  | cons c cs => exact h

namespace Lexeme

theorem ne_of_isBlank {d e : Char} (hd : isBlank d = true) (he : isBlank e = false) : d ≠ e := by
  rintro rfl
  rw [hd] at he
  cases he

/-! ## Characters that end words and numbers -/

section Ends

variable {d : Char}

theorem EndsWord.isDigit (h : EndsWord d) : d.isDigit = false := by
  have hpart := h.1
  rw [isIdentifierPart, Bool.or_eq_false_iff] at hpart
  exact hpart.2

theorem EndsWord.ne_letter (h : EndsWord d) {c : Char} (hc : isIdentifierPart c = true) :
    d ≠ c := by
  rintro rfl
  rw [h.1] at hc
  cases hc

theorem EndsWord.isDigitOrBar (h : EndsWord d) : isDigitOrBar d = false := by
  have hbar : d ≠ '_' := h.ne_letter (by decide)
  simp [Lexeme.isDigitOrBar, h.isDigit, hbar]

theorem isAlpha_of_le (h : ('a' ≤ d ∧ d ≤ 'z') ∨ ('A' ≤ d ∧ d ≤ 'Z')) : d.isAlpha = true := by
  rcases h with h | h
  · have hlower : d.isLower = true :=
      Bool.and_eq_true_iff.mpr ⟨decide_eq_true h.1, decide_eq_true h.2⟩
    exact Bool.or_eq_true_iff.mpr (.inr hlower)
  · have hupper : d.isUpper = true := decide_eq_true h
    exact Bool.or_eq_true_iff.mpr (.inl hupper)

theorem isAlpha_of_isIdentifierPart (h : isIdentifierPart d = false) : d.isAlpha = false := by
  simp only [isIdentifierPart, isIdentifierStart, Bool.or_eq_false_iff] at h
  exact h.1.1.1.1

theorem EndsWord.isAlpha (h : EndsWord d) : d.isAlpha = false := isAlpha_of_isIdentifierPart h.1

theorem EndsWord.isHexDigitOrBar (h : EndsWord d) : isHexDigitOrBar d = false := by
  have hlower : ¬ ('a' ≤ d ∧ d ≤ 'f') := by
    intro hle
    have halpha := isAlpha_of_le (.inl ⟨hle.1, Char.le_trans hle.2 (by decide)⟩)
    rw [h.isAlpha] at halpha
    cases halpha
  have hupper : ¬ ('A' ≤ d ∧ d ≤ 'F') := by
    intro hle
    have halpha := isAlpha_of_le (.inr ⟨hle.1, Char.le_trans hle.2 (by decide)⟩)
    rw [h.isAlpha] at halpha
    cases halpha
  rw [Lexeme.isHexDigitOrBar, h.isDigitOrBar, Bool.false_or, Bool.or_eq_false_iff,
    ← Bool.decide_and, ← Bool.decide_and]
  exact ⟨decide_eq_false hlower, decide_eq_false hupper⟩

end Ends

/-! ## Lexemes made of classes of characters -/

theorem takeWhile_takeWhile_append {p : Char → Bool} (cs : List Char) {more : List Char}
    (h : ∀ d, more.head? = some d → p d = false) :
    (cs.takeWhile p ++ more).takeWhile p = cs.takeWhile p := by
  have hmore : more.takeWhile p = [] := by
    cases more with
    | nil => rfl
    | cons d more => exact List.takeWhile_cons_of_neg (by simp [h d rfl])
  rw [List.takeWhile_append_of_pos (List.all_eq_true.mp List.all_takeWhile), hmore, List.append_nil]

/-- What `f` takes is a beginning of the text, and cutting the text off behind it changes nothing.
-/
structure Takes (f : List Char → List Char) : Prop where
  front : ∀ cs, f cs <+: cs
  cut : ∀ u v, (f (u ++ v)).length ≤ u.length → f u = f (u ++ v)

theorem takes_takeWhile (p : Char → Bool) : Takes (List.takeWhile p) where
  front := fun _ => List.takeWhile_prefix p
  cut := by
    intro u v h
    induction u with
    | nil =>
      have hnil : v.takeWhile p = [] := List.eq_nil_of_length_eq_zero (Nat.le_zero.mp h)
      rw [List.nil_append, hnil, List.takeWhile_nil]
    | cons c u ih =>
      rw [List.cons_append] at h ⊢
      by_cases hc : p c = true
      · rw [List.takeWhile_cons_of_pos hc] at h
        rw [List.takeWhile_cons_of_pos hc, List.takeWhile_cons_of_pos hc,
          ih (Nat.le_of_succ_le_succ h)]
      · rw [List.takeWhile_cons_of_neg hc, List.takeWhile_cons_of_neg hc]

theorem Takes.andThen {f g : List Char → List Char} (hf : Takes f) (hg : Takes g) :
    Takes fun cs => f cs ++ g (cs.drop (f cs).length) where
  front := by
    intro cs
    have hdrop : f cs ++ cs.drop (f cs).length = cs := List.prefix_iff_eq_append.mp (hf.front cs)
    have hrest := (List.prefix_append_right_inj (f cs)).mpr (hg.front (cs.drop (f cs).length))
    rwa [hdrop] at hrest
  cut := by
    intro u v h
    rw [List.length_append] at h
    have hfirst := hf.cut u v (by omega)
    have hdrop : (u ++ v).drop (f (u ++ v)).length = u.drop (f (u ++ v)).length ++ v :=
      List.drop_append_of_le_length (by omega)
    have hsecond := hg.cut (u.drop (f (u ++ v)).length) v (by
      rw [← hdrop, List.length_drop]
      omega)
    rw [hfirst, hsecond, hdrop]

theorem takes_exponent : Takes exponent where
  front := by
    intro cs
    cases cs with
    | nil => exact List.nil_prefix
    | cons e cs =>
      have hdigits : ∀ ds : List Char, ds.takeWhile Char.isDigit <+: ds :=
        fun _ => List.takeWhile_prefix _
      cases cs with
      | nil => simp [exponent]
      | cons s cs =>
        by_cases hs : s = '+' ∨ s = '-'
        · simp only [exponent, if_pos hs, List.length_singleton, List.drop_succ_cons,
            List.drop_zero]
          split
          · simpa using hdigits cs
          · exact List.nil_prefix
        · simp only [exponent, if_neg hs, List.length_nil, List.drop_zero]
          split
          · simpa using hdigits (s :: cs)
          · exact List.nil_prefix
  cut := by
    intro u v h
    have hdigits := (takes_takeWhile Char.isDigit).cut
    cases u with
    | nil =>
      have hnil : exponent v = [] := List.eq_nil_of_length_eq_zero (Nat.le_zero.mp h)
      rw [List.nil_append, hnil]
      rfl
    | cons e u =>
      cases u with
      | nil =>
        -- An exponent is no shorter than its letter and one digit.
        have hshort : ∀ ds : List Char,
            (exponent (e :: ds)).length ≤ 1 → exponent (e :: ds) = [] := by
          intro ds hds
          refine Decidable.byContradiction fun hne => ?_
          simp only [exponent] at hds hne
          rw [ite_eq_right_iff, Classical.not_imp] at hne
          have hpos := List.length_pos_iff.mpr hne.1.2
          rw [if_pos hne.1, List.length_cons, List.length_append] at hds
          omega
        have hmore : exponent (e :: v) = [] := hshort v h
        have hnone : exponent [e] = [] := by simp [exponent]
        rw [List.singleton_append, hmore, hnone]
      | cons s u =>
        rw [List.cons_append, List.cons_append] at h ⊢
        by_cases he : e = 'e' ∨ e = 'E'
        · by_cases hs : s = '+' ∨ s = '-'
          · simp only [exponent, he, if_pos hs, List.length_singleton, List.drop_succ_cons,
              List.drop_zero, true_and] at h ⊢
            have heq : u.takeWhile Char.isDigit = (u ++ v).takeWhile Char.isDigit := by
              refine hdigits u v ?_
              by_cases hnil : (u ++ v).takeWhile Char.isDigit = []
              · simp [hnil]
              · rw [if_pos hnil] at h
                simpa using h
            rw [heq]
          · simp only [exponent, he, if_neg hs, List.length_nil, List.drop_zero, true_and] at h ⊢
            have heq :
                (s :: u).takeWhile Char.isDigit = (s :: (u ++ v)).takeWhile Char.isDigit := by
              refine hdigits (s :: u) v ?_
              rw [List.cons_append]
              by_cases hnil : (s :: (u ++ v)).takeWhile Char.isDigit = []
              · simp [hnil]
              · rw [if_pos hnil] at h
                simpa using h
            rw [heq]
        · simp [exponent, he]

theorem takes_fraction : Takes fraction where
  front := by
    intro cs
    unfold fraction
    split
    · exact (List.prefix_cons_inj _).mpr (List.takeWhile_prefix _)
    · exact List.nil_prefix
  cut := by
    intro u v h
    cases u with
    | nil =>
      have hnil : fraction v = [] := List.eq_nil_of_length_eq_zero (Nat.le_zero.mp h)
      rw [List.nil_append, hnil]
      rfl
    | cons c u =>
      rw [List.cons_append] at h ⊢
      by_cases hc : c = '.'
      · subst hc
        have heq := (takes_takeWhile isDigitOrBar).cut u v (Nat.le_of_succ_le_succ h)
        exact congrArg ('.' :: ·) heq
      · unfold fraction
        simp [hc]

theorem takes_decimal : Takes decimal := by
  have htakes := (takes_takeWhile isDigitOrBar).andThen (takes_fraction.andThen takes_exponent)
  have heq : decimal = fun cs => cs.takeWhile isDigitOrBar
      ++ (fraction (cs.drop (cs.takeWhile isDigitOrBar).length)
        ++ exponent ((cs.drop (cs.takeWhile isDigitOrBar).length).drop
          (fraction (cs.drop (cs.takeWhile isDigitOrBar).length)).length)) := by
    funext cs
    simp only [decimal, List.append_assoc, List.drop_drop]
  rw [heq]
  exact htakes

/-- A number with a base: its digits stand behind a zero and the letter of the base. -/
theorem radixDigits_cons (c x : Char) (cs : List Char) : radixDigits (c :: x :: cs)
    = if c = '0' ∧ x ∈ ['x', 'X', 'b', 'B', 'o', 'O'] then cs.takeWhile isHexDigitOrBar
      else [] := by
  by_cases hc : c = '0'
  · subst hc
    simp [radixDigits]
  · unfold radixDigits
    simp [hc]

theorem radixDigits_of_short {cs : List Char} (h : cs.length ≤ 1) : radixDigits cs = [] := by
  match cs with
  | [] => rfl
  | [c] =>
    unfold radixDigits
    simp

theorem takes_number : Takes number where
  front := by
    intro cs
    unfold number
    dsimp only
    by_cases hnil : radixDigits cs = []
    · rw [if_pos hnil]
      exact takes_decimal.front cs
    · rw [if_neg hnil]
      match cs with
      | [] => exact absurd rfl hnil
      | [c] => exact absurd (radixDigits_of_short (by simp)) hnil
      | c :: x :: cs =>
        rw [radixDigits_cons] at hnil ⊢
        split at hnil
        · rename_i hbase
          rw [if_pos hbase]
          simpa using List.takeWhile_prefix (p := isHexDigitOrBar) (l := cs)
        · exact absurd rfl hnil
  cut := by
    intro u v h
    have hdigits := (takes_takeWhile isHexDigitOrBar).cut
    unfold number at h ⊢
    dsimp only at h ⊢
    -- Without digits of a base the number is a decimal one, and so it is in the shorter text.
    by_cases hnil : radixDigits (u ++ v) = []
    · rw [if_pos hnil] at h
      have hnil' : radixDigits u = [] := by
        match u with
        | [] => rfl
        | [c] => exact radixDigits_of_short (Nat.le_refl 1)
        | c :: x :: u =>
          rw [List.cons_append, List.cons_append, radixDigits_cons] at hnil
          rw [radixDigits_cons]
          split at hnil
          · rename_i hbase
            rw [if_pos hbase, hdigits u v (by rw [hnil]; exact Nat.zero_le _), hnil]
          · rename_i hbase
            rw [if_neg hbase]
      rw [if_pos hnil, if_pos hnil', takes_decimal.cut u v h]
    · rw [if_neg hnil, List.length_append, List.length_take] at h
      have hpos := List.length_pos_iff.mpr hnil
      match u with
      | [] =>
        rw [List.nil_append] at h hpos hnil
        have hshort : v.length ≤ 1 := by
          rw [List.length_nil] at h
          omega
        exact absurd (radixDigits_of_short hshort) hnil
      | [c] =>
        rw [List.length_singleton] at h
        rw [List.length_append, List.length_singleton] at h
        have hshort : (c :: v).length ≤ 1 := by
          rw [List.length_cons]
          omega
        exact absurd (radixDigits_of_short hshort) hnil
      | c :: x :: u =>
        rw [List.cons_append, List.cons_append, radixDigits_cons] at hnil h ⊢
        by_cases hbase : c = '0' ∧ x ∈ ['x', 'X', 'b', 'B', 'o', 'O']
        · rw [if_pos hbase] at hnil h
          have heq := hdigits u v (by
            simp only [List.length_cons] at h
            omega)
          rw [radixDigits_cons, if_pos hbase, if_pos hbase, heq, if_neg hnil, if_neg hnil]
          rfl
        · exact absurd (if_neg hbase) hnil

theorem takes_pointDigits : Takes pointDigits where
  front := by
    intro cs
    unfold pointDigits
    dsimp only
    split
    · exact List.nil_prefix
    · exact ((takes_takeWhile Char.isDigit).andThen takes_exponent).front cs
  cut := by
    intro u v h
    have hboth := ((takes_takeWhile Char.isDigit).andThen takes_exponent).cut u v
    unfold pointDigits at h ⊢
    dsimp only at h ⊢
    by_cases hnil : (u ++ v).takeWhile Char.isDigit = []
    · have hnil' : u.takeWhile Char.isDigit = [] := by
        rw [(takes_takeWhile Char.isDigit).cut u v (by rw [hnil]; exact Nat.zero_le _), hnil]
      rw [if_pos hnil, if_pos hnil']
    · rw [if_neg hnil] at h
      have hdigits : u.takeWhile Char.isDigit = (u ++ v).takeWhile Char.isDigit := by
        refine (takes_takeWhile Char.isDigit).cut u v ?_
        rw [List.length_append] at h
        omega
      rw [if_neg hnil, if_neg (by rw [hdigits]; exact hnil), hboth h]

/-! A number ends in front of a character that ends words. -/

section Ends

variable {d : Char}

theorem exponent_append (h : EndsWord d) (cs more : List Char) :
    exponent (cs ++ d :: more) = exponent cs := by
  cases cs with
  | nil =>
    have hlower : d ≠ 'e' := h.ne_letter (by decide)
    have hupper : d ≠ 'E' := h.ne_letter (by decide)
    simp [exponent, hlower, hupper]
  | cons e cs =>
    cases cs with
    | nil => simp [exponent, h.2.2.1, h.2.2.2, h.isDigit]
    | cons s cs =>
      have hdigits := takeWhile_append_stop h.isDigit
      by_cases hs : s = '+' ∨ s = '-'
      · simp only [exponent, List.cons_append, if_pos hs, List.length_singleton,
          List.drop_succ_cons, List.drop_zero, hdigits]
      · have hsecond := hdigits (s :: cs) more
        rw [List.cons_append] at hsecond
        simp only [exponent, List.cons_append, if_neg hs, List.length_nil, List.drop_zero, hsecond]

theorem fraction_append (h : EndsWord d) (cs more : List Char) :
    fraction (cs ++ d :: more) = fraction cs := by
  have hdigits := takeWhile_append_stop h.isDigitOrBar
  have hpoint := h.2.1
  cases cs with
  | nil =>
    unfold fraction
    simp [hpoint]
  | cons c cs =>
    unfold fraction
    rw [List.cons_append]
    split
    · rename_i heq
      cases heq
      rw [hdigits]
      rfl
    · rename_i hne
      split
      · rename_i heq
        cases heq
        exact absurd rfl (hne _)
      · rfl

theorem radixDigits_append (h : EndsWord d) (cs more : List Char) :
    radixDigits (cs ++ d :: more) = radixDigits cs := by
  have hdigits := takeWhile_append_stop h.isHexDigitOrBar
  have hzero : d ≠ '0' := h.ne_letter (by decide)
  have hbase : d ∉ ['x', 'X', 'b', 'B', 'o', 'O'] := by
    intro hmem
    simp only [List.mem_cons, List.not_mem_nil, or_false] at hmem
    rcases hmem with rfl | rfl | rfl | rfl | rfl | rfl <;> exact absurd h.1 (by decide)
  match cs with
  | [] =>
    cases more with
    | nil => exact radixDigits_of_short (Nat.le_refl 1)
    | cons x more => exact (radixDigits_cons d x more).trans (if_neg fun hboth => hzero hboth.1)
  | [c] =>
    have hshort : radixDigits [c] = [] := radixDigits_of_short (Nat.le_refl 1)
    rw [hshort]
    exact (radixDigits_cons c d more).trans (if_neg fun hboth => hbase hboth.2)
  | c :: x :: cs =>
    rw [List.cons_append, List.cons_append, radixDigits_cons, radixDigits_cons, hdigits]

theorem decimal_append (h : EndsWord d) (cs more : List Char) :
    decimal (cs ++ d :: more) = decimal cs := by
  have hwhole := ((takes_takeWhile isDigitOrBar).front cs).length_le
  have hpart := (takes_fraction.front (cs.drop (cs.takeWhile isDigitOrBar).length)).length_le
  rw [List.length_drop] at hpart
  simp only [decimal, takeWhile_append_stop h.isDigitOrBar]
  rw [List.drop_append_of_le_length hwhole, fraction_append h,
    List.drop_append_of_le_length (by omega), exponent_append h]

theorem pointDigits_append (h : EndsWord d) (cs more : List Char) :
    pointDigits (cs ++ d :: more) = pointDigits cs := by
  have hdigits := ((takes_takeWhile Char.isDigit).front cs).length_le
  simp only [pointDigits, takeWhile_append_stop h.isDigit]
  rw [List.drop_append_of_le_length hdigits, exponent_append h]

theorem number_append (h : EndsWord d) (cs more : List Char) :
    number (cs ++ d :: more) = number cs := by
  simp only [number, radixDigits_append h, decimal_append h]
  split
  · rfl
  · rename_i hne
    match cs, hne with
    | [], hne => exact absurd rfl hne
    | [_], hne => exact absurd (radixDigits_of_short (by simp)) hne
    | _ :: _ :: _, _ => rfl

end Ends

/-! ## Lexemes that run to a closing mark -/

section Closed

variable {u v cs text : List Char}

/-- The text up to and with the first `mark` that is not escaped, unless a character that `ends` the
search stands before it. -/
def upToMark (ends : Char → Bool) (mark : Char) : (escaped : Bool) → List Char → Option (List Char)
  | _, [] => none
  | escaped, c :: cs =>
    if ends c then none
    else if escaped then (upToMark ends mark false cs).map (c :: ·)
    else if c = mark then some [c]
    else (upToMark ends mark (c = '\\') cs).map (c :: ·)

/-- One step of the search: whether the mark ends it and whether the next character is escaped
depends on the two flags together. -/
theorem upToMark_cons (ends : Char → Bool) (mark : Char) (escaped : Bool) (c : Char)
    (cs : List Char) : upToMark ends mark escaped (c :: cs) =
      if ends c then none
      else if c = mark ∧ escaped = false then some [c]
      else (upToMark ends mark (!escaped && c = '\\') cs).map (c :: ·) := by
  rw [upToMark]
  cases escaped <;> simp

theorem quoted_eq_upToMark (quote : Char) (escaped : Bool) (cs : List Char) :
    quoted quote escaped cs = upToMark (· = '\n') quote escaped cs := by
  induction cs generalizing escaped with
  | nil => rfl
  | cons c cs ih => simp only [quoted, upToMark, ih, decide_eq_true_eq]

theorem template_eq_upToMark (escaped : Bool) (cs : List Char) :
    template escaped cs = upToMark (fun _ => false) '`' escaped cs := by
  induction cs generalizing escaped with
  | nil => rfl
  | cons c cs ih => simp only [template, upToMark, ih, if_neg Bool.false_ne_true]

/-- What is found is a beginning of the text, and it is found in front of any other text too. -/
theorem upToMark_spec {ends : Char → Bool} {mark : Char} {escaped : Bool}
    (h : upToMark ends mark escaped cs = some text) :
    ∃ rest, cs = text ++ rest ∧ ∀ more, upToMark ends mark escaped (text ++ more) = some text := by
  induction cs generalizing escaped text with
  | nil => cases h
  | cons c cs ih =>
    rw [upToMark_cons] at h
    split at h
    · cases h
    rename_i hends
    split at h
    · rename_i hmark
      cases h
      refine ⟨cs, rfl, fun more => ?_⟩
      rw [List.singleton_append, upToMark_cons, if_neg hends, if_pos hmark]
    · rename_i hmark
      obtain ⟨tail, htail, rfl⟩ := Option.map_eq_some_iff.mp h
      obtain ⟨rest, rfl, hagain⟩ := ih htail
      refine ⟨rest, rfl, fun more => ?_⟩
      rw [List.cons_append, upToMark_cons, if_neg hends, if_neg hmark, hagain]
      rfl

theorem quoted_spec {quote : Char} {escaped : Bool} (h : quoted quote escaped cs = some text) :
    ∃ rest, cs = text ++ rest ∧ ∀ more, quoted quote escaped (text ++ more) = some text := by
  simp only [quoted_eq_upToMark] at h ⊢
  exact upToMark_spec h

theorem template_spec {escaped : Bool} (h : template escaped cs = some text) :
    ∃ rest, cs = text ++ rest ∧ ∀ more, template escaped (text ++ more) = some text := by
  simp only [template_eq_upToMark] at h ⊢
  exact upToMark_spec h

/-- A closed comment is some text without `*/` and then these two characters. -/
theorem comment_eq_some : comment cs = some text ↔
    ∃ body rest, text = body ++ ['*', '/'] ∧ cs = text ++ rest ∧
      ¬ ['*', '/'] <:+: body ++ ['*'] := by
  constructor
  · intro h
    fun_induction comment cs generalizing text with
    | case1 => cases h
    | case2 cs =>
      cases h
      exact ⟨[], cs, rfl, rfl, by decide⟩
    | case3 c cs hne ih =>
      obtain ⟨tail, htail, rfl⟩ := Option.map_eq_some_iff.mp h
      obtain ⟨body, rest, rfl, rfl, hbody⟩ := ih htail
      refine ⟨c :: body, rest, rfl, rfl, ?_⟩
      rw [List.cons_append, List.infix_cons_iff]
      rintro (hfirst | hlater)
      · obtain ⟨rfl, hslash⟩ := List.cons_prefix_cons.mp hfirst
        cases body with
        | nil => simp at hslash
        | cons d body =>
          have hd : '/' = d := (List.cons_prefix_cons.mp hslash).1
          subst hd
          exact hne _ rfl rfl
      · exact hbody hlater
  · rintro ⟨body, rest, rfl, rfl, hbody⟩
    induction body with
    | nil => rfl
    | cons c body ih =>
      rw [List.cons_append, List.infix_cons_iff, not_or] at hbody
      rw [List.cons_append, List.cons_append, comment, ih hbody.2]
      · rfl
      · intro ds hc hds
        subst hc
        cases body with
        | nil => cases hds
        | cons d body =>
          cases hds
          exact hbody.1 ⟨body ++ ['*'], rfl⟩

/-- What a character does to the search for the end of a regular expression. -/
inductive RegexStep where
  /-- There is no regular expression. -/
  | fails
  /-- The regular expression is closed. -/
  | closes
  | goes (escaped inClass : Bool)

/-- The step at `c`, which may be escaped or between brackets. -/
def regexStep (escaped inClass : Bool) (c : Char) : RegexStep :=
  if c = '\n' ∨ c = '\r' then .fails
  else if escaped then .goes false inClass
  else if c = '\\' then .goes true inClass
  else if c = '[' then .goes false true
  else if c = ']' then .goes false false
  else if c = '/' ∧ !inClass then .closes
  else .goes false inClass

theorem regex_cons (escaped inClass : Bool) (c : Char) (cs : List Char) :
    regex escaped inClass (c :: cs) = match regexStep escaped inClass c with
      | .fails => none
      | .closes => some (c :: cs.takeWhile Char.isAlpha)
      | .goes escaped inClass => (regex escaped inClass cs).map (c :: ·) := by
  rw [regex]
  unfold regexStep
  repeat' split
  all_goals simp_all

/-- The flags behind a regular expression are all the letters that stand there. -/
theorem regex_spec {escaped inClass : Bool} (h : regex escaped inClass cs = some text) :
    ∃ rest, cs = text ++ rest ∧ (∀ d, rest.head? = some d → d.isAlpha = false) ∧
      ∀ more, (∀ d, more.head? = some d → d.isAlpha = false) →
        regex escaped inClass (text ++ more) = some text := by
  induction cs generalizing escaped inClass text with
  | nil => cases h
  | cons c cs ih =>
    rw [regex_cons] at h
    cases hstep : regexStep escaped inClass c with
    | fails =>
      rw [hstep] at h
      cases h
    | closes =>
      rw [hstep] at h
      cases h
      refine ⟨cs.dropWhile Char.isAlpha, ?_, ?_, fun more hmore => ?_⟩
      · rw [List.cons_append, List.takeWhile_append_dropWhile]
      · intro d hd
        have hnot := List.head?_dropWhile_not Char.isAlpha cs
        rw [hd] at hnot
        simpa using hnot
      · rw [List.cons_append, regex_cons, hstep]
        exact congrArg (fun flags => some (c :: flags)) (takeWhile_takeWhile_append cs hmore)
    | goes b b' =>
      rw [hstep] at h
      obtain ⟨tail, htail, rfl⟩ := Option.map_eq_some_iff.mp h
      obtain ⟨rest, rfl, hrest, hagain⟩ := ih htail
      refine ⟨rest, rfl, hrest, fun more hmore => ?_⟩
      rw [List.cons_append, regex_cons, hstep]
      dsimp only
      rw [hagain more hmore]
      rfl

/-- Where a character closes no regular expression, what stands behind it may be exchanged, as long
as none is closed there either. -/
theorem regex_cons_eq_none_of {escaped inClass : Bool} {cs' : List Char}
    (h : regex escaped inClass (c :: cs) = none)
    (hrest : ∀ b b', regexStep escaped inClass c = .goes b b' → regex b b' cs = none →
      regex b b' cs' = none) : regex escaped inClass (c :: cs') = none := by
  rw [regex_cons] at h ⊢
  cases hstep : regexStep escaped inClass c with
  | fails => rfl
  | closes =>
    rw [hstep] at h
    cases h
  | goes b b' =>
    rw [hstep] at h
    exact Option.map_eq_none_iff.mpr (hrest b b' hstep (Option.map_eq_none_iff.mp h))

theorem regex_eq_none_of_append {escaped inClass : Bool}
    (h : regex escaped inClass (u ++ v) = none) : regex escaped inClass u = none := by
  induction u generalizing escaped inClass with
  | nil => rfl
  | cons c u ih => exact regex_cons_eq_none_of h fun _ _ _ => ih

/-- The flags of a regular expression end in front of a line feed, and one that is not closed on its
line is not closed. -/
theorem regex_append (escaped inClass : Bool) (cs more : List Char) :
    regex escaped inClass (cs ++ '\n' :: more) = regex escaped inClass cs := by
  induction cs generalizing escaped inClass with
  | nil => rfl
  | cons c cs ih =>
    have hflags : (cs ++ '\n' :: more).takeWhile Char.isAlpha = cs.takeWhile Char.isAlpha :=
      takeWhile_append_stop (by decide) cs more
    rw [List.cons_append, regex, regex, hflags]
    simp only [ih]

end Closed

end Lexeme
end AliasCheck
