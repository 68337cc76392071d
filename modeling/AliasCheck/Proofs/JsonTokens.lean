import AliasCheck.Json.Node
import AliasCheck.Proofs.Results
import AliasCheck.Proofs.Stretches

/-!
# Blanks, numbers and strings of JSON

The smallest parts of a JSON text: which texts they are, and that each is read to its end and no
further, whatever follows. Only a number needs a following character that does not go on with it.
-/

namespace AliasCheck
namespace Json

/-! ## Blanks -/

/-- A text of blanks. -/
def Blanks (ws : List Char) : Prop := ∀ c ∈ ws, Cursor.isBlank c = true

theorem Blanks.nil : Blanks [] := List.forall_mem_nil _

section Blanks

variable {ws cs : List Char}

theorem Cursor.skipBlanks_append (hws : Blanks ws)
    (hcs : ∀ c, cs.head? = some c → Cursor.isBlank c = false) (offset : Nat) :
    Cursor.skipBlanks ⟨offset, ws ++ cs⟩ = ⟨offset + ws.length, cs⟩ := by
  simp only [Cursor.skipBlanks, Cursor.skip, takeWhile_append_eq hws hcs, List.drop_left]

theorem Cursor.skipBlanks_cons {c : Char} (hws : Blanks ws) (hc : Cursor.isBlank c = false)
    (offset : Nat) (cs : List Char) :
    Cursor.skipBlanks ⟨offset, ws ++ c :: cs⟩ = ⟨offset + ws.length, c :: cs⟩ := by
  refine skipBlanks_append hws (fun d hd => ?_) offset
  cases hd
  exact hc

theorem Cursor.skipBlanks_of_head {c : Char} (hc : Cursor.isBlank c = false) (offset : Nat)
    (cs : List Char) : Cursor.skipBlanks ⟨offset, c :: cs⟩ = ⟨offset, c :: cs⟩ :=
  skipBlanks_cons Blanks.nil hc offset cs

/-- What is skipped are blanks, and there is none behind them. -/
theorem Cursor.exists_skipBlanks (c : Cursor) : ∃ ws cs, Blanks ws ∧ c.rest = ws ++ cs ∧
    c.skipBlanks = ⟨c.offset + ws.length, cs⟩ ∧
    ∀ d, cs.head? = some d → Cursor.isBlank d = false := by
  obtain ⟨cs, hsplit, hdrop, hblanks, hstop⟩ := exists_takeWhile Cursor.isBlank c.rest
  refine ⟨_, cs, hblanks, hsplit, ?_, hstop⟩
  rw [skipBlanks, skip, hdrop]

end Blanks

/-! ## Numbers -/

namespace Numeral

/-- The digits in front of the point: a single zero, or digits that begin with another one. -/
structure IsWhole (digits : List Char) : Prop where
  ne_nil : digits ≠ []
  all : ∀ d ∈ digits, d.isDigit = true
  plain : digits.head? = some '0' → digits = ['0']

/-- The text of the digits behind the point. -/
def fractionText (digits : List Char) : List Char := if digits = [] then [] else '.' :: digits

/-- The text of an exponent. -/
inductive ExponentText : Option (Bool × List Char) → List Char → Prop where
  | none : ExponentText none []
  | some {e : Char} {sign digits : List Char} (he : e = 'e' ∨ e = 'E')
      (hsign : sign = [] ∨ sign = ['+'] ∨ sign = ['-']) (hne : digits ≠ [])
      (hall : ∀ d ∈ digits, d.isDigit = true) :
      ExponentText (some (sign == ['-'], digits)) (e :: (sign ++ digits))

/-- The text is that of the numeral. -/
structure IsText (n : Numeral) (text : List Char) : Prop where
  whole : IsWhole n.whole
  fraction : ∀ d ∈ n.fraction, d.isDigit = true
  parts : ∃ exponent, ExponentText n.exponent exponent ∧
    text = (if n.negative then ['-'] else []) ++ (n.whole ++ (fractionText n.fraction ++ exponent))

/-- What follows does not go on with a number. -/
def Ends (rest : List Char) : Prop :=
  ∀ d, rest.head? = some d → d.isDigit = false ∧ d ≠ '.' ∧ d ≠ 'e' ∧ d ≠ 'E'

section Text

variable {n : Numeral} {text rest digits exponent : List Char} {offset : Nat} {c after : Cursor}

theorem not_isDigit_of_exponent {e : Option (Bool × List Char)} (h : ExponentText e exponent)
    (hrest : Ends rest) :
    ∀ d, (exponent ++ rest).head? = some d → d.isDigit = false ∧ d ≠ '.' := by
  intro d hd
  cases h with
  | none => exact ⟨(hrest d hd).1, (hrest d hd).2.1⟩
  | some he _ _ _ =>
    cases hd
    rcases he with rfl | rfl <;> decide

theorem readWhole_of_isWhole (h : IsWhole digits)
    (hrest : ∀ d, rest.head? = some d → d.isDigit = false) (offset : Nat) :
    readWhole ⟨offset, digits ++ rest⟩ = .ok (digits, ⟨offset + digits.length, rest⟩) := by
  have htake : (digits ++ rest).takeWhile Char.isDigit = digits := takeWhile_append_eq h.all hrest
  have hplain := h.plain
  have hdrop : (digits ++ rest).drop digits.length = rest := List.drop_left
  simp only [readWhole, htake, Cursor.skip]
  split
  · exact absurd rfl h.ne_nil
  · cases hplain rfl
  · rw [hdrop]

theorem isWhole_of_readWhole (h : readWhole c = .ok (digits, after)) : IsWhole digits ∧
    c.rest = digits ++ after.rest ∧ after.offset = c.offset + digits.length := by
  obtain ⟨rest, hsplit, hdrop, hdigits, -⟩ := exists_takeWhile Char.isDigit c.rest
  rw [readWhole] at h
  split at h
  · cases h
  · cases h
  · rename_i hne hzero
    cases h
    refine ⟨⟨hne, hdigits, ?_⟩, ?_, rfl⟩
    · intro hhead
      cases htake : c.rest.takeWhile Char.isDigit with
      | nil => exact absurd htake hne
      | cons d ds =>
        rw [htake] at hhead
        cases hhead
        cases ds with
        | nil => rfl
        | cons e es => exact absurd htake (hzero e es)
    · rw [Cursor.skip, hdrop]
      exact hsplit

theorem readFraction_of_text (hdigits : ∀ d ∈ digits, d.isDigit = true)
    (hrest : ∀ d, rest.head? = some d → d.isDigit = false ∧ d ≠ '.') (offset : Nat) :
    readFraction ⟨offset, fractionText digits ++ rest⟩
      = .ok (digits, ⟨offset + (fractionText digits).length, rest⟩) := by
  by_cases hnil : digits = []
  · subst hnil
    rw [fractionText, if_pos rfl, List.nil_append, readFraction]
    split
    · rename_i cs heq
      have hpoint : rest = '.' :: cs := heq
      exact absurd rfl (hrest '.' (by rw [hpoint]; rfl)).2
    · rfl
  · have htake : (digits ++ rest).takeWhile Char.isDigit = digits :=
      takeWhile_append_eq hdigits fun d hd => (hrest d hd).1
    have hdrop : (digits ++ rest).drop digits.length = rest := List.drop_left
    rw [fractionText, if_neg hnil, List.cons_append]
    simp only [readFraction, htake, Cursor.skip, List.drop_succ_cons, hdrop, List.length_cons]

theorem text_of_readFraction (h : readFraction c = .ok (digits, after)) :
    (∀ d ∈ digits, d.isDigit = true) ∧ c.rest = fractionText digits ++ after.rest ∧
      after.offset = c.offset + (fractionText digits).length := by
  rw [readFraction] at h
  split at h
  · rename_i cs hrest
    obtain ⟨rest, hsplit, hdrop, hdigits, -⟩ := exists_takeWhile Char.isDigit cs
    split at h
    · cases h
    · rename_i hne
      cases h
      rw [fractionText, if_neg hne]
      refine ⟨hdigits, ?_, rfl⟩
      rw [Cursor.skip, hrest, List.drop_succ_cons, hdrop, List.cons_append, ← hsplit]
  · cases h
    exact ⟨List.forall_mem_nil _, rfl, rfl⟩

theorem readExponent_of_text {e : Option (Bool × List Char)} (h : ExponentText e exponent)
    (hrest : Ends rest) (offset : Nat) :
    readExponent ⟨offset, exponent ++ rest⟩ = .ok (e, ⟨offset + exponent.length, rest⟩) := by
  cases h with
  | none =>
    rw [List.nil_append, readExponent]
    split
    · rename_i d cs heq
      have hhead : rest = d :: cs := heq
      obtain ⟨-, -, he, hE⟩ := hrest d (by rw [hhead]; rfl)
      rw [if_neg (not_or.mpr ⟨he, hE⟩)]
      rfl
    · rfl
  | @some e sign digits he hsign hne hall =>
    have htake : (digits ++ rest).takeWhile Char.isDigit = digits :=
      takeWhile_append_eq hall fun d hd => (hrest d hd).1
    obtain ⟨d, ds, rfl⟩ := List.exists_cons_of_ne_nil hne
    have hdrop : (d :: ds ++ rest).drop (d :: ds).length = rest := List.drop_left
    rw [List.length_cons] at hdrop
    have hfilter : ((sign ++ (d :: ds) ++ rest).take 1).filter (fun s => s = '+' || s = '-')
        = sign := by
      rcases hsign with rfl | rfl | rfl
      · have hd := hall d List.mem_cons_self
        have hplus : d ≠ '+' := by
          rintro rfl
          cases hd
        have hminus : d ≠ '-' := by
          rintro rfl
          cases hd
        simp [hplus, hminus]
      · rfl
      · rfl
    have hskip : (e :: (sign ++ (d :: ds) ++ rest)).drop (1 + sign.length) = d :: ds ++ rest := by
      rw [Nat.add_comm, List.drop_succ_cons, List.append_assoc, List.drop_left]
    rw [List.cons_append, readExponent]
    simp only [if_pos he, hfilter, Cursor.skip, hskip, htake, hdrop, List.length_cons,
      List.length_append]
    rw [show offset + (1 + sign.length) + (ds.length + 1)
      = offset + (sign.length + (ds.length + 1) + 1) by omega]

theorem text_of_readExponent {e : Option (Bool × List Char)}
    (h : readExponent c = .ok (e, after)) : ∃ exponent, ExponentText e exponent ∧
      c.rest = exponent ++ after.rest ∧ after.offset = c.offset + exponent.length := by
  rw [readExponent] at h
  split at h
  · rename_i d cs hrest
    split at h
    · rename_i he
      dsimp only at h
      generalize hsign : (cs.take 1).filter (fun s => s = '+' || s = '-') = sign at h
      have hcases : (sign = [] ∨ sign = ['+'] ∨ sign = ['-']) ∧ ∃ ds, cs = sign ++ ds := by
        cases cs with
        | nil => exact ⟨.inl hsign.symm, [], by rw [← hsign]; rfl⟩
        | cons s cs =>
          by_cases hplus : s = '+'
          · subst hplus
            exact ⟨.inr (.inl hsign.symm), cs, by rw [← hsign]; rfl⟩
          · by_cases hminus : s = '-'
            · subst hminus
              exact ⟨.inr (.inr hsign.symm), cs, by rw [← hsign]; rfl⟩
            · have hnone : sign = [] := by rw [← hsign]; simp [hplus, hminus]
              exact ⟨.inl hnone, s :: cs, by rw [hnone]; rfl⟩
      obtain ⟨hsigns, ds, rfl⟩ := hcases
      have hskip : (d :: (sign ++ ds)).drop (1 + sign.length) = ds := by
        rw [Nat.add_comm, List.drop_succ_cons, List.drop_left]
      rw [Cursor.skip, hrest] at h
      simp only [hskip] at h
      obtain ⟨rest, hsplit, hdrop, hdigits, -⟩ := exists_takeWhile Char.isDigit ds
      split at h
      · cases h
      · rename_i hne
        cases h
        refine ⟨_, .some he hsigns hne hdigits, ?_, ?_⟩
        · rw [Cursor.skip, hrest, hdrop, List.cons_append, List.append_assoc, ← hsplit]
        · simp only [Cursor.skip, List.length_cons, List.length_append]
          omega
    · cases h
      exact ⟨[], .none, rfl, rfl⟩
  · cases h
    exact ⟨[], .none, rfl, rfl⟩

theorem not_isDigit_of_fraction (h : ExponentText n.exponent exponent) (hrest : Ends rest) :
    ∀ d, (fractionText n.fraction ++ (exponent ++ rest)).head? = some d → d.isDigit = false := by
  intro d hd
  rw [fractionText] at hd
  split at hd
  · exact (not_isDigit_of_exponent h hrest d hd).1
  · cases hd
    rfl

/-- A numeral is read part by part. -/
theorem read_eq_ok : read c = .ok (n, after) ↔ ∃ c₁ c₂,
    n.negative = (c.rest.head? == some '-') ∧
    readWhole (if n.negative then c.skip 1 else c) = .ok (n.whole, c₁) ∧
    readFraction c₁ = .ok (n.fraction, c₂) ∧ readExponent c₂ = .ok (n.exponent, after) := by
  constructor
  · intro h
    obtain ⟨⟨whole, c₁⟩, hwhole, h⟩ := bind_eq_ok.mp h
    obtain ⟨⟨fraction, c₂⟩, hfraction, h⟩ := bind_eq_ok.mp h
    obtain ⟨⟨exponent, c₃⟩, hexponent, h⟩ := bind_eq_ok.mp h
    cases h
    exact ⟨c₁, c₂, rfl, hwhole, hfraction, hexponent⟩
  · rintro ⟨c₁, c₂, hsign, hwhole, hfraction, hexponent⟩
    rw [hsign] at hwhole
    refine bind_eq_ok.mpr ⟨_, hwhole, bind_eq_ok.mpr ⟨_, hfraction, bind_eq_ok.mpr
      ⟨_, hexponent, ?_⟩⟩⟩
    rw [← hsign]

/-- The text of a numeral is read as the numeral. -/
theorem read_of_isText (h : n.IsText text) (hrest : Ends rest) (offset : Nat) :
    read ⟨offset, text ++ rest⟩ = .ok (n, ⟨offset + text.length, rest⟩) := by
  obtain ⟨exponent, hexponent, rfl⟩ := h.parts
  have hfraction := readFraction_of_text h.fraction (not_isDigit_of_exponent hexponent hrest)
  have hwhole := readWhole_of_isWhole h.whole (not_isDigit_of_fraction hexponent hrest)
  have hend := readExponent_of_text hexponent hrest
  obtain ⟨d, ds, hds⟩ := List.exists_cons_of_ne_nil h.whole.ne_nil
  have hminus : d ≠ '-' := by
    rintro rfl
    cases h.whole.all '-' (hds ▸ List.mem_cons_self)
  simp only [List.append_assoc]
  cases hsign : n.negative with
  | false =>
    have hhead : (d == '-') = false := beq_eq_false_iff_ne.mpr hminus
    refine read_eq_ok.mpr ⟨_, _, ?_, ?_, hfraction (offset + n.whole.length), ?_⟩
    · rw [hsign, hds]
      exact hhead.symm
    · rw [hsign]
      exact hwhole offset
    · rw [hend]
      simp only [Bool.false_eq_true, if_false, List.nil_append, List.length_append, Nat.add_assoc]
  | true =>
    refine read_eq_ok.mpr ⟨_, _, ?_, ?_, hfraction (offset + 1 + n.whole.length), ?_⟩
    · rw [hsign]
      rfl
    · rw [hsign]
      exact hwhole (offset + 1)
    · rw [hend]
      simp only [if_true, List.length_append, List.length_singleton, Nat.add_assoc]

/-- What is read as a numeral is the text of the numeral. -/
theorem isText_of_read (h : read c = .ok (n, after)) : ∃ text, n.IsText text ∧
    c.rest = text ++ after.rest ∧ after.offset = c.offset + text.length := by
  obtain ⟨c₁, c₂, hsign, hwhole, hfraction, hexponent⟩ := read_eq_ok.mp h
  obtain ⟨hdigits, hrest, hoffset⟩ := isWhole_of_readWhole hwhole
  obtain ⟨hfractions, hrest₁, hoffset₁⟩ := text_of_readFraction hfraction
  obtain ⟨tail, htail, hrest₂, hoffset₂⟩ := text_of_readExponent hexponent
  refine ⟨_, ⟨hdigits, hfractions, tail, htail, rfl⟩, ?_, ?_⟩
  · rw [hrest₁, hrest₂] at hrest
    cases hneg : n.negative with
    | false =>
      rw [hneg] at hrest
      simpa using hrest
    | true =>
      rw [hneg] at hrest
      rw [hneg] at hsign
      obtain ⟨cs, hcs⟩ := List.head?_eq_some_iff.mp (beq_iff_eq.mp hsign.symm)
      have htail : cs = n.whole ++ (fractionText n.fraction ++ (tail ++ after.rest)) := by
        simpa [Cursor.skip, hcs] using hrest
      rw [hcs, htail]
      simp
  · rw [hoffset₂, hoffset₁, hoffset]
    cases hneg : n.negative with
    | false => simp [Nat.add_assoc]
    | true =>
      simp only [if_true, Cursor.skip, List.length_append, List.length_singleton]
      omega

/-- The text of a numeral begins with a minus sign or a digit. -/
theorem IsText.head (h : n.IsText text) :
    ∃ d ds, text = d :: ds ∧ (d = '-' ∨ d.isDigit = true) := by
  obtain ⟨exponent, -, rfl⟩ := h.parts
  obtain ⟨d, ds, hds⟩ := List.exists_cons_of_ne_nil h.whole.ne_nil
  cases n.negative with
  | false =>
    rw [hds]
    exact ⟨d, _, rfl, .inr (h.whole.all d (hds ▸ List.mem_cons_self))⟩
  | true => exact ⟨'-', _, rfl, .inl rfl⟩

end Text

end Numeral

/-! ## Strings -/

namespace Quoted

section Steps

variable {strict : Bool} {offset : Nat} {cs text : List Char} {after : Cursor}

attribute [local simp] body

theorem andThen_eq_ok {c : Char} {x : Except Fault (List Char × Cursor)} :
    andThen c x = .ok (text, after) ↔ ∃ text', x = .ok (text', after) ∧ text = c :: text' := by
  rw [andThen, map_eq_ok]
  constructor
  · rintro ⟨⟨text', after'⟩, h, heq⟩
    cases heq
    exact ⟨text', h, rfl⟩
  · rintro ⟨text', h, rfl⟩
    exact ⟨(text', after), h, rfl⟩

theorem body_quote (strict : Bool) (offset : Nat) (cs : List Char) :
    body strict offset ('"' :: cs) = .ok ([], ⟨offset + 1, cs⟩) := by
  rw [body]

theorem body_unicode {a b c d : Char} {n : Nat} (h : hex? a b c d = some n) (offset : Nat)
    (cs : List Char) : body false offset ('\\' :: 'u' :: a :: b :: c :: d :: cs)
      = andThen (Char.ofNat n) (body false (offset + 6) cs) := by
  simp [h]

theorem body_short {e c : Char} (h : short? e = some c) (strict : Bool) (offset : Nat)
    (cs : List Char) :
    body strict offset ('\\' :: e :: cs) = andThen c (body strict (offset + 2) cs) := by
  have hu : e ≠ 'u' := by
    rintro rfl
    cases h
  rw [body.eq_def]
  simp [hu, h]

theorem body_plain {c : Char} (hquote : c ≠ '"') (hslash : c ≠ '\\') (hshown : ¬ c.toNat < 0x20)
    (strict : Bool) (offset : Nat) (cs : List Char) :
    body strict offset (c :: cs) = andThen c (body strict (offset + c.utf8Size) cs) := by
  rw [body.eq_def]
  simp [hslash, hshown]

/-- A backslash comes first in no text that has neither nothing nor something behind it. -/
theorem ne_slash {c : Char} (hempty : c = '\\' → cs = [] → False)
    (hmore : ∀ e es, c = '\\' → cs = e :: es → False) : c ≠ '\\' := by
  rintro rfl
  cases cs with
  | nil => exact hempty rfl rfl
  | cons e es => exact hmore e es rfl rfl

/-- What a string takes is a beginning of the text, and it takes that much whatever follows. -/
theorem exists_used (h : body false offset cs = .ok (text, after)) : ∃ used,
    cs = used ++ after.rest ∧
      ∀ rest, body false offset (used ++ rest) = .ok (text, ⟨after.offset, rest⟩) := by
  fun_induction body false offset cs generalizing text after with
  | case2 offset cs =>
    cases h
    exact ⟨['"'], rfl, fun rest => body_quote false offset rest⟩
  | case5 offset a b c d cs n hhex _ ih =>
    obtain ⟨text, hrest, rfl⟩ := andThen_eq_ok.mp h
    obtain ⟨used, rfl, hused⟩ := ih hrest
    refine ⟨'\\' :: 'u' :: a :: b :: c :: d :: used, rfl, fun rest => ?_⟩
    exact (body_unicode hhex offset _).trans (andThen_eq_ok.mpr ⟨text, hused rest, rfl⟩)
  | case11 offset e cs _ c hshort ih =>
    obtain ⟨text, hrest, rfl⟩ := andThen_eq_ok.mp h
    obtain ⟨used, rfl, hused⟩ := ih hrest
    refine ⟨'\\' :: e :: used, rfl, fun rest => ?_⟩
    exact (body_short hshort false offset _).trans (andThen_eq_ok.mpr ⟨text, hused rest, rfl⟩)
  | case15 offset c cs hquote hempty _ hslash hshown ih =>
    obtain ⟨text, hrest, rfl⟩ := andThen_eq_ok.mp h
    obtain ⟨used, rfl, hused⟩ := ih hrest
    have hstep := body_plain hquote (ne_slash hempty hslash) hshown
    refine ⟨c :: used, rfl, fun rest => ?_⟩
    exact (hstep false offset _).trans
      (andThen_eq_ok.mpr ⟨text, hused rest, rfl⟩)
  | _ => simp_all

theorem map_fst_andThen (c : Char) (x : Except Fault (List Char × Cursor)) :
    (andThen c x).map Prod.fst = (x.map Prod.fst).map (c :: ·) := by
  cases x <;> rfl

/-- The fault of a surrogate without its other half is found before the string ends. -/
theorem pairFault_append {stop : Nat}
    (hpair : ∀ e f g h more, cs = '\\' :: 'u' :: e :: f :: g :: h :: more → False)
    (h : body false offset cs = .ok (text, ⟨stop, []⟩)) (rest : List Char) :
    (∀ e f g h more, cs ++ rest = '\\' :: 'u' :: e :: f :: g :: h :: more → False) ∧
      pairFault offset (cs ++ rest) = pairFault offset cs := by
  cases cs with
  | nil => cases h
  | cons c cs =>
    by_cases hc : c = '\\'
    · subst hc
      cases cs with
      | nil => cases h
      | cons e cs =>
        have he : e ≠ 'u' := by
          rintro rfl
          match cs with
          | a :: b :: c :: d :: more => exact hpair a b c d more rfl
          | [] | [_] | [_, _] | [_, _, _] => simp [short?] at h
        refine ⟨fun _ _ _ _ _ heq => ?_, ?_⟩
        · exact he (List.cons.inj (List.cons.inj heq).2).1
        · simp [pairFault, he]
    · refine ⟨fun _ _ _ _ _ heq => ?_, ?_⟩
      · exact hc (List.cons.inj heq).1
      · simp [pairFault, hc]

/-- What a strict reader makes of a string does not depend on what follows. -/
theorem body_true_append {used : List Char} {stop : Nat}
    (h : body false offset used = .ok (text, ⟨stop, []⟩)) (rest : List Char) :
    (body true offset (used ++ rest)).map Prod.fst = (body true offset used).map Prod.fst := by
  fun_induction body true offset used generalizing text with
  | case1 offset => cases h
  | case2 offset cs => rw [List.cons_append, body_quote]; rfl
  | case3 offset => cases h
  | case4 offset a b c d cs hhex => simp [hhex] at h
  | case5 offset a b c d cs n hhex hn ih =>
    rw [body_unicode hhex] at h
    obtain ⟨text, hrest, -⟩ := andThen_eq_ok.mp h
    simp only [List.cons_append, body, hhex, if_pos hn, map_fst_andThen, ih hrest]
  | case6 offset a b c d cs n hhex hn hlow =>
    simp only [List.cons_append, body, hhex, if_neg hn, if_pos hlow]
  | case7 offset a b c d n hhex hn hlow e f g i cs hnone =>
    rw [body_unicode hhex] at h
    obtain ⟨text, hrest, -⟩ := andThen_eq_ok.mp h
    simp [hnone] at hrest
  | case8 offset a b c d n hhex hn hlow e f g i cs low hhex' hlow' ih =>
    rw [body_unicode hhex] at h
    obtain ⟨text, hrest, -⟩ := andThen_eq_ok.mp h
    rw [body_unicode hhex'] at hrest
    obtain ⟨text, hrest, -⟩ := andThen_eq_ok.mp hrest
    simp only [List.cons_append, body, hhex, hhex', if_neg hn, if_neg hlow, if_pos hlow',
      map_fst_andThen, ih hrest]
  | case9 offset a b c d n hhex hn hlow e f g i cs low hhex' hlow' =>
    simp only [List.cons_append, body, hhex, hhex', if_neg hn, if_neg hlow, if_neg hlow']
  | case10 offset a b c d cs n hhex hn hlow hpair =>
    rw [body_unicode hhex] at h
    obtain ⟨text, hrest, -⟩ := andThen_eq_ok.mp h
    obtain ⟨hpair', hfault⟩ := pairFault_append hpair hrest rest
    simp only [List.cons_append, body, hhex, if_neg hn, if_neg hlow, hfault]
  | case11 offset e cs hu c hshort ih =>
    rw [body_short hshort] at h
    obtain ⟨text, hrest, -⟩ := andThen_eq_ok.mp h
    rw [List.cons_append, List.cons_append, body_short hshort, map_fst_andThen, map_fst_andThen,
      ih hrest]
  | case12 offset cs hu hshort => simp_all [body.eq_def]
  | case13 offset e cs hu hshort hne => simp_all [body.eq_def]
  | case14 offset c cs hquote _ _ _ hhidden => simp_all [body.eq_def]
  | case15 offset c cs hquote hempty _ hslash hshown ih =>
    have hstep := body_plain hquote (ne_slash hempty hslash) hshown
    rw [hstep] at h
    obtain ⟨text, hrest, -⟩ := andThen_eq_ok.mp h
    rw [List.cons_append, hstep, map_fst_andThen, map_fst_andThen, ih hrest]

end Steps
end Quoted

namespace Node

/-- A text is a string behind its opening quote, with its closing quote, whatever follows. -/
def IsString (start : Nat) (text : List Char) (value : Except Fault String) (stop : Nat) : Prop :=
  ∀ rest, readString ⟨start, text ++ rest⟩ = .ok (value, ⟨stop, rest⟩)

/-- What is read as a string is the text of a string. -/
theorem isString_of_readString {c after : Cursor} {value : Except Fault String}
    (h : readString c = .ok (value, after)) :
    ∃ text, c.rest = text ++ after.rest ∧ IsString c.offset text value after.offset := by
  rw [readString] at h
  dsimp only at h
  split at h
  · rename_i lax after' hlax
    cases h
    obtain ⟨used, hsplit, hused⟩ := Quoted.exists_used hlax
    refine ⟨used, hsplit, fun rest => ?_⟩
    have halone := hused []
    rw [List.append_nil] at halone
    have hstrict : (Quoted.body true c.offset (used ++ rest)).map Prod.fst
        = (Quoted.body true c.offset c.rest).map Prod.fst := by
      rw [hsplit, Quoted.body_true_append halone rest, Quoted.body_true_append halone after.rest]
    have hlast := congrArg (Except.map String.ofList) hstrict
    rw [map_map_eq, map_map_eq] at hlast
    simp only [readString, hused rest]
    rw [hlast]
  · split at h <;> cases h

end Node

end Json
end AliasCheck
