import AliasCheck.Proofs.NumeralValues
import AliasCheck.Proofs.ReadWrittenJson

/-!
# Numbers that are written and read again

Every number that a JSON value can hold is written as a numeral that has a value. The value need not
be the same number, since doubles are read with rounding on the way, but a number is never refused.
-/

namespace AliasCheck

/-! ## The shortest decimal -/

/-- What a decimal stands for. -/
def Decimal.magnitude (d : Decimal) : ℚ := d.digits * 10 ^ d.exponent

namespace Double

section Shortest

variable {x : Double} {d : Decimal} {digits : ℕ} {e : ℤ}

/-- A decimal that reads back is above the double by at most half a unit in the last place. -/
theorem le_of_readsBack (h : x.readsBack digits e = true) :
    (Decimal.mk digits e).magnitude ≤ (x.mantissa + 1 / 2) * 2 ^ x.exponent := by
  have hden : (0 : ℚ) < (x.inQuarters digits e).2 := by
    have hpos : 0 < (x.inQuarters digits e).2 :=
      Nat.mul_pos (Nat.pow_pos (by decide)) (Nat.pow_pos (by decide))
    exact Nat.cast_pos.mpr hpos
  have hquarters : ((x.inQuarters digits e).1 : ℚ) / (x.inQuarters digits e).2
      = digits * 10 ^ e / 2 ^ (x.exponent - 2) := by
    rw [zpow_eq_div 10 e, zpow_eq_div 2 (x.exponent - 2)]
    simp only [inQuarters, Nat.pow_eq, Nat.cast_mul, Nat.cast_pow, Nat.cast_ofNat]
    field_simp
  have hhigh : (x.inQuarters digits e).1 ≤ (4 * x.mantissa + 2) * (x.inQuarters digits e).2 := by
    dsimp only [readsBack] at h
    by_cases hodd : x.mantissa % 2 = 0
    · rw [if_pos hodd] at h
      exact (of_decide_eq_true h).2
    · rw [if_neg hodd] at h
      exact (of_decide_eq_true h).2.le
  have hcast : ((x.inQuarters digits e).1 : ℚ)
      ≤ (4 * x.mantissa + 2) * (x.inQuarters digits e).2 := by exact_mod_cast hhigh
  have hpow : (2 : ℚ) ^ x.exponent = 2 ^ (x.exponent - 2) * 4 := by
    rw [zpow_sub₀ two_ne_zero]
    norm_num
  rw [← div_le_iff₀ hden, hquarters, div_le_iff₀ (by positivity)] at hcast
  rw [Decimal.magnitude, hpow]
  linarith

theorem readsBack_of_nearest? (h : x.nearest? e = some d) :
    0 < d.digits ∧ x.readsBack d.digits d.exponent = true := by
  dsimp only [nearest?] at h
  split at h
  · rename_i hlow
    cases h
    exact ⟨Nat.pos_of_ne_zero hlow.1.1, hlow.1.2⟩
  · split at h
    · rename_i hhigh
      cases h
      exact ⟨Nat.succ_pos _, hhigh⟩
    · cases h

/-- The decimal that is found is not zero, and it is above the double by at most half a unit in the
last place. -/
theorem search_spec (hx : 0 < x.mantissa) (tries : ℕ) (e : ℤ) :
    0 < (x.search tries e).digits ∧
      (x.search tries e).magnitude ≤ (x.mantissa + 1 / 2) * 2 ^ x.exponent := by
  induction tries generalizing e with
  | zero =>
    have hpow : (0 : ℚ) < 2 ^ x.exponent := by positivity
    have hexact : (x.search 0 e).magnitude = x.mantissa * 2 ^ x.exponent := by
      rw [Decimal.magnitude, search]
      simp only [Nat.pow_eq, Nat.cast_mul, Nat.cast_pow, Nat.cast_ofNat]
      rcases le_total 0 x.exponent with hq | hq
      · obtain ⟨k, hk⟩ := Int.eq_ofNat_of_zero_le hq
        simp [hk]
      · obtain ⟨k, hk⟩ := Int.eq_ofNat_of_zero_le (neg_nonneg.mpr hq)
        have hexponent : x.exponent = -k := by omega
        have hten : (10 : ℚ) ^ k = 2 ^ k * 5 ^ k := by
          rw [← mul_pow]
          norm_num
        simp only [hexponent, neg_neg, Int.toNat_natCast, Int.toNat_neg_natCast, pow_zero, mul_one,
          min_eq_right (neg_nonpos.mpr (Int.natCast_nonneg k)), zpow_neg, zpow_natCast, hten]
        field_simp
    refine ⟨?_, ?_⟩
    · exact Nat.mul_pos (Nat.mul_pos hx (Nat.pow_pos (by decide))) (Nat.pow_pos (by decide))
    · rw [hexact]
      linarith
  | succ tries ih =>
    rw [search]
    split
    · rename_i d hd
      obtain ⟨hpos, hreads⟩ := readsBack_of_nearest? hd
      exact ⟨hpos, le_of_readsBack hreads⟩
    · exact ih (e - 1)

end Shortest
end Double

/-! ## Digits -/

namespace Json

section Digits

variable {n : ℕ} {ds : List Char}

/-- The digits of a number above zero do not begin with a zero. -/
theorem head?_toDigits (hn : 0 < n) : (Nat.toDigits 10 n).head? ≠ some '0' := by
  induction n using Nat.strong_induction_on with
  | _ n ih =>
    rw [Nat.toDigits_eq_if (by decide)]
    split
    · rename_i hsmall
      have hdigit : ∀ k < 10, 0 < k → [Nat.digitChar k].head? ≠ some '0' := by decide
      exact hdigit n hsmall hn
    · have hfront := ih (n / 10) (by omega) (by omega)
      obtain ⟨d, ds, hds⟩ :=
        List.exists_cons_of_ne_nil (Nat.toDigits_ne_nil (n := n / 10) (b := 10))
      rw [hds] at hfront ⊢
      exact hfront

theorem isDigit_toDigits (n : ℕ) : ∀ d ∈ Nat.toDigits 10 n, d.isDigit = true :=
  fun _ hd => Nat.isDigit_of_mem_toDigits (by decide) (by decide) hd

/-- The digits of a number are its significant digits and zeros. -/
theorem exists_significant (hn : 0 < n) : ∃ k,
    Nat.toDigits 10 n = Number.significant n ++ Number.zeros k ∧
      Numeral.IsWhole (Number.significant n) ∧ (Number.significant n).head? ≠ some '0' := by
  have hhead := head?_toDigits hn
  have hdigits := isDigit_toDigits n
  have hne := Nat.toDigits_ne_nil (n := n) (b := 10)
  have hsplit : Nat.toDigits 10 n = Number.significant n
      ++ ((Nat.toDigits 10 n).reverse.takeWhile (· = '0')).reverse := by
    rw [Number.significant, ← List.reverse_append, List.takeWhile_append_dropWhile,
      List.reverse_reverse]
  have hzeros : ((Nat.toDigits 10 n).reverse.takeWhile (· = '0')).reverse
      = Number.zeros ((Nat.toDigits 10 n).reverse.takeWhile (· = '0')).length := by
    refine List.eq_replicate_iff.mpr ⟨List.length_reverse, fun d hd => ?_⟩
    have hall := List.all_eq_true.mp List.all_takeWhile d (List.mem_reverse.mp hd)
    exact of_decide_eq_true hall
  rw [hzeros] at hsplit
  generalize ((Nat.toDigits 10 n).reverse.takeWhile (· = '0')).length = k at hsplit
  rw [hsplit] at hhead hdigits hne
  have hfirst : Number.significant n ≠ [] ∧ (Number.significant n).head? ≠ some '0' := by
    cases hsig : Number.significant n with
    | nil =>
      cases k with
      | zero =>
        rw [hsig] at hne
        exact absurd rfl hne
      | succ k =>
        rw [hsig] at hhead
        exact absurd rfl hhead
    | cons d ds =>
      rw [hsig] at hhead
      exact ⟨List.cons_ne_nil d ds, hhead⟩
  refine ⟨k, hsplit, ⟨hfirst.1, fun d hd => ?_, fun h => absurd h hfirst.2⟩, hfirst.2⟩
  exact hdigits d (List.mem_append_left _ hd)

end Digits

/-! ## The layout of a decimal -/

/-- The text of the sign of a number. -/
def signText (negative : Bool) : List Char := if negative then ['-'] else []

/-- The text is that of a numeral which says what the decimal does, with few digits in front of the
point and a power of ten that is not greater than the decimal. -/
structure LaysOut (n : Numeral) (text : List Char) (d : Decimal) : Prop where
  isText : n.IsText text
  magnitude : n.magnitude = d.magnitude
  whole : n.whole.length ≤ 16
  power : n.power ≤ 0 ∨ 10 ^ n.power ≤ d.magnitude

section Layout

variable {d : Decimal} {digits : List Char} {point : ℤ} (negative : Bool)

/-- The significant digits of a decimal say what the decimal does, if as many of them are put in
front of the point as the layout says. -/
theorem magnitude_significant (hd : 0 < d.digits) :
    d.magnitude = Nat.ofDigitChars 10 (Number.significant d.digits) 0
      * 10 ^ ((Nat.toDigits 10 d.digits).length + d.exponent
          - (Number.significant d.digits).length : ℤ) := by
  obtain ⟨k, hsplit, -, -⟩ := exists_significant hd
  have hdigits : d.digits = 10 ^ k * Nat.ofDigitChars 10 (Number.significant d.digits) 0 := by
    have hread : Nat.ofDigitChars 10 (Nat.toDigits 10 d.digits) 0 = d.digits :=
      Nat.ofDigitChars_ten_toDigits
    rw [hsplit, Nat.ofDigitChars_append, Number.zeros, Nat.ofDigitChars_replicate_zero] at hread
    exact hread.symm
  have hlength : (Nat.toDigits 10 d.digits).length
      = (Number.significant d.digits).length + k := by
    rw [hsplit, List.length_append, Number.zeros, List.length_replicate]
  have hpower : ((Nat.toDigits 10 d.digits).length + d.exponent
      - (Number.significant d.digits).length : ℤ) = k + d.exponent := by
    rw [hlength]
    push_cast
    ring
  have hcast : (d.digits : ℚ) = 10 ^ k * Nat.ofDigitChars 10 (Number.significant d.digits) 0 := by
    exact_mod_cast hdigits
  rw [hpower, Decimal.magnitude, hcast, zpow_add₀ (by norm_num), zpow_natCast]
  ring

theorem isDigit_zeros (k : ℕ) : ∀ d ∈ Number.zeros k, d.isDigit = true := by
  intro d hd
  rw [List.eq_of_mem_replicate hd]
  rfl

theorem isWhole_zero : Numeral.IsWhole ['0'] :=
  ⟨List.cons_ne_nil _ _, isDigit_zeros 1, fun _ => rfl⟩

/-- Digits behind `0.` and zeros. -/
theorem laysOut_small (hdigits : Numeral.IsWhole digits) (hpoint : point ≤ 0)
    (hd : d.magnitude = Nat.ofDigitChars 10 digits 0 * 10 ^ (point - digits.length)) :
    LaysOut ⟨negative, ['0'], Number.zeros (-point).toNat ++ digits, none⟩
      (signText negative ++ Number.positional digits point) d := by
  have hne : Number.zeros (-point).toNat ++ digits ≠ [] := fun h =>
    hdigits.ne_nil (List.append_eq_nil_iff.mp h).2
  refine ⟨⟨isWhole_zero, ?_, [], .none, ?_⟩, ?_, (by decide : 1 ≤ 16), .inl le_rfl⟩
  · intro c hc
    rcases List.mem_append.mp hc with hc | hc
    · exact isDigit_zeros _ c hc
    · exact hdigits.all c hc
  · rw [Number.positional, if_pos hpoint, Numeral.fractionText, if_neg hne, List.append_nil]
    rfl
  · have hvalue : Nat.ofDigitChars 10 (['0'] ++ (Number.zeros (-point).toNat ++ digits)) 0
        = Nat.ofDigitChars 10 digits 0 := by
      rw [List.singleton_append, Nat.ofDigitChars_cons, Nat.ofDigitChars_append, Number.zeros,
        Nat.ofDigitChars_replicate_zero]
      rfl
    have hplaces : (0 : ℤ) - (Number.zeros (-point).toNat ++ digits).length
        = point - digits.length := by
      rw [List.length_append, Number.zeros, List.length_replicate]
      omega
    rw [Numeral.magnitude, Numeral.power_of_none rfl, hvalue, hplaces, hd]

/-- Digits and zeros in front of `.0`. -/
theorem laysOut_great (hdigits : Numeral.IsWhole digits) (hhead : digits.head? ≠ some '0')
    (hpos : 0 < point) (hpoint : point ≤ 16) (hlength : digits.length ≤ point.toNat)
    (hd : d.magnitude = Nat.ofDigitChars 10 digits 0 * 10 ^ (point - digits.length)) :
    LaysOut ⟨negative, digits ++ Number.zeros (point.toNat - digits.length), ['0'], none⟩
      (signText negative ++ Number.positional digits point) d := by
  refine ⟨⟨⟨?_, ?_, ?_⟩, isDigit_zeros 1, [], .none, ?_⟩, ?_, ?_, .inl le_rfl⟩
  · exact fun h => hdigits.ne_nil (List.append_eq_nil_iff.mp h).1
  · intro c hc
    rcases List.mem_append.mp hc with hc | hc
    · exact hdigits.all c hc
    · exact isDigit_zeros _ c hc
  · intro h
    rw [List.head?_append_of_ne_nil _ hdigits.ne_nil] at h
    exact absurd h hhead
  · rw [Number.positional, if_neg (not_le.mpr hpos)]
    simp only [if_pos hlength, Numeral.fractionText, List.append_nil, signText]
    rfl
  · have hplaces : ((point.toNat - digits.length : ℕ) : ℤ) = point - digits.length := by omega
    have hone : ((['0'] : List Char).length : ℤ) = 1 := rfl
    rw [Numeral.magnitude, Numeral.power_of_none rfl, hd, ← hplaces, zpow_natCast,
      Nat.ofDigitChars_append, Nat.ofDigitChars_append, Number.zeros,
      Nat.ofDigitChars_replicate_zero, Nat.ofDigitChars_cons, Nat.ofDigitChars_nil, hone]
    push_cast
    norm_num
    ring
  · rw [List.length_append, Number.zeros, List.length_replicate]
    omega

/-- The point among the digits. -/
theorem laysOut_inside (hdigits : Numeral.IsWhole digits) (hhead : digits.head? ≠ some '0')
    (hpos : 0 < point) (hpoint : point ≤ 16) (hlength : ¬ digits.length ≤ point.toNat)
    (hd : d.magnitude = Nat.ofDigitChars 10 digits 0 * 10 ^ (point - digits.length)) :
    LaysOut ⟨negative, digits.take point.toNat, digits.drop point.toNat, none⟩
      (signText negative ++ Number.positional digits point) d := by
  obtain ⟨k, hk⟩ : ∃ k, point.toNat = k + 1 := ⟨point.toNat - 1, by omega⟩
  obtain ⟨c, cs, rfl⟩ := List.exists_cons_of_ne_nil hdigits.ne_nil
  have hne : (c :: cs).drop point.toNat ≠ [] := by
    rw [ne_eq, List.drop_eq_nil_iff]
    exact hlength
  refine ⟨⟨⟨?_, ?_, ?_⟩, ?_, [], .none, ?_⟩, ?_, ?_, .inl le_rfl⟩
  · rw [hk]
    exact List.cons_ne_nil _ _
  · exact fun d hd => hdigits.all d (List.mem_of_mem_take hd)
  · intro h
    rw [hk] at h
    exact absurd h hhead
  · exact fun d hd => hdigits.all d (List.mem_of_mem_drop hd)
  · rw [Number.positional, if_neg (not_le.mpr hpos)]
    simp only [if_neg hlength, Numeral.fractionText, if_neg hne, List.append_nil, signText]
  · have hplaces : (0 : ℤ) - ((c :: cs).drop point.toNat).length
        = point - (c :: cs).length := by
      rw [List.length_drop]
      omega
    rw [Numeral.magnitude, Numeral.power_of_none rfl, List.take_append_drop, hplaces, hd]
  · rw [List.length_take]
    omega

/-- The point behind the first digit, and a power of ten. -/
theorem laysOut_exponential (hdigits : Numeral.IsWhole digits) (hhead : digits.head? ≠ some '0')
    (hd : d.magnitude = Nat.ofDigitChars 10 digits 0 * 10 ^ (point - digits.length)) :
    LaysOut ⟨negative, digits.take 1, digits.drop 1,
        some (decide (point - 1 < 0), Nat.toDigits 10 (point - 1).natAbs)⟩
      (signText negative ++ Number.exponential digits (point - 1)) d := by
  obtain ⟨c, cs, rfl⟩ := List.exists_cons_of_ne_nil hdigits.ne_nil
  have hpower : (if decide (point - 1 < 0) then
      -(Nat.ofDigitChars 10 (Nat.toDigits 10 (point - 1).natAbs) 0 : ℤ)
      else Nat.ofDigitChars 10 (Nat.toDigits 10 (point - 1).natAbs) 0) = point - 1 := by
    rw [Nat.ofDigitChars_ten_toDigits]
    split
    · rename_i hneg
      have hneg' := of_decide_eq_true hneg
      omega
    · rename_i hneg
      have hneg' : ¬ point - 1 < 0 := fun h => hneg (decide_eq_true h)
      omega
  have hleast : 10 ^ cs.length ≤ Nat.ofDigitChars 10 (c :: cs) 0 := by
    have hfirst : 1 ≤ c.toNat - '0'.toNat := by
      have hdigit := hdigits.all c List.mem_cons_self
      simp only [Char.isDigit, Bool.and_eq_true, decide_eq_true_eq] at hdigit
      have hzero : '0'.toNat ≤ c.toNat := hdigit.1
      have hne : c.toNat ≠ '0'.toNat :=
        fun h => hhead (by rw [List.head?_cons, Char.toNat_inj.mp h])
      omega
    rw [Nat.ofDigitChars_cons, Nat.ofDigitChars_eq_ofDigitChars_zero]
    nlinarith [Nat.pow_pos (n := cs.length) (show 0 < 10 by decide)]
  have hexponent : Numeral.ExponentText
      (some (decide (point - 1 < 0), Nat.toDigits 10 (point - 1).natAbs))
      ('e' :: (if point - 1 < 0 then '-' else '+') :: Nat.toDigits 10 (point - 1).natAbs) := by
    have hne := Nat.toDigits_ne_nil (n := (point - 1).natAbs) (b := 10)
    have hall := isDigit_toDigits (point - 1).natAbs
    split
    · rename_i hneg
      rw [decide_eq_true hneg]
      exact .some (.inl rfl) (.inr (.inr rfl)) hne hall
    · rename_i hneg
      rw [decide_eq_false hneg]
      exact .some (.inl rfl) (.inr (.inl rfl)) hne hall
  refine ⟨⟨⟨List.cons_ne_nil _ _, ?_, ?_⟩, ?_, _, hexponent, ?_⟩, ?_, ?_, .inr ?_⟩
  · exact fun d hd => hdigits.all d (List.mem_of_mem_take hd)
  · exact fun h => absurd h hhead
  · exact fun d hd => hdigits.all d (List.mem_of_mem_drop hd)
  · have hfraction : (if (c :: cs).length ≤ 1 then [] else '.' :: (c :: cs).drop 1)
        = Numeral.fractionText ((c :: cs).drop 1) := by
      rw [Numeral.fractionText]
      cases cs with
      | nil => rfl
      | cons e es => rfl
    rw [Number.exponential, hfraction]
    simp only [signText, List.append_assoc]
  · have hplaces : point - 1 - ((c :: cs).drop 1).length = point - (c :: cs).length := by
      rw [List.length_drop, List.length_cons]
      omega
    rw [Numeral.magnitude, Numeral.power_of_some rfl, hpower, List.take_append_drop, hplaces, hd]
  · exact (by decide : 1 ≤ 16)
  · have hcast : (10 : ℚ) ^ cs.length ≤ Nat.ofDigitChars 10 (c :: cs) 0 := by
      exact_mod_cast hleast
    rw [Numeral.power_of_some rfl, hpower, hd]
    calc (10 : ℚ) ^ (point - 1) = 10 ^ cs.length * 10 ^ (point - (c :: cs).length) := by
          rw [← zpow_natCast, ← zpow_add₀ (by norm_num), List.length_cons]
          congr 1
          push_cast
          ring
      _ ≤ Nat.ofDigitChars 10 (c :: cs) 0 * 10 ^ (point - (c :: cs).length) := by gcongr

/-- A decimal is laid out as a numeral. -/
theorem exists_laysOut (hd : 0 < d.digits) : ∃ whole fraction exponent,
    LaysOut ⟨negative, whole, fraction, exponent⟩ (signText negative ++ Number.layout d) d := by
  obtain ⟨k, -, hdigits, hhead⟩ := exists_significant hd
  have hvalue := magnitude_significant hd
  rw [Number.layout]
  generalize ((Nat.toDigits 10 d.digits).length + d.exponent : ℤ) = point at hvalue ⊢
  split
  · rename_i hpoint
    by_cases hsmall : point ≤ 0
    · exact ⟨_, _, _, laysOut_small negative hdigits hsmall hvalue⟩
    · have hpos : 0 < point := not_le.mp hsmall
      by_cases hlength : (Number.significant d.digits).length ≤ point.toNat
      · exact ⟨_, _, _, laysOut_great negative hdigits hhead hpos hpoint.2 hlength hvalue⟩
      · exact ⟨_, _, _, laysOut_inside negative hdigits hhead hpos hpoint.2 hlength hvalue⟩
  · exact ⟨_, _, _, laysOut_exponential negative hdigits hhead hvalue⟩

end Layout

/-! ## Numbers -/

namespace Number

/-- The numbers that a value can hold: integers of 64 bits, with or without a sign, and finite
doubles. -/
def InRange : Number → Prop
  | integer n => -2 ^ 63 ≤ n ∧ n < 2 ^ 64
  | float x => x.mantissa < 2 ^ 53 ∧ x.exponent ≤ Double.maxExponent

/-- Integers are read as they were written. -/
theorem integer_readsAs {n : ℤ} (hn : (integer n).InRange) : (integer n).ReadsAs (integer n) := by
  obtain ⟨hlow, hhigh⟩ := hn
  have hread : Nat.ofDigitChars 10 (Nat.toDigits 10 n.natAbs) 0 = n.natAbs :=
    Nat.ofDigitChars_ten_toDigits
  have hplain : (Nat.toDigits 10 n.natAbs).head? = some '0' →
      Nat.toDigits 10 n.natAbs = ['0'] := by
    intro h
    rcases Nat.eq_zero_or_pos n.natAbs with hzero | hpos
    · rw [hzero]
      rfl
    · exact absurd h (head?_toDigits hpos)
  refine ⟨⟨decide (n < 0), Nat.toDigits 10 n.natAbs, [], none⟩,
    ⟨⟨Nat.toDigits_ne_nil, isDigit_toDigits _, hplain⟩, List.forall_mem_nil _, [], .none, ?_⟩,
    fun stop => ?_⟩
  · rw [write]
    split
    · rename_i hneg
      simp [decide_eq_true hneg, Numeral.fractionText]
    · rename_i hneg
      simp [decide_eq_false hneg, Numeral.fractionText]
  · have hsmall : Nat.ofDigitChars 10 (Nat.toDigits 10 n.natAbs) 0 < Nat.pow 2 64 := by
      rw [hread]
      have hpow : Nat.pow 2 64 = 18446744073709551616 := rfl
      omega
    have hvalue : Numeral.integerValue (decide (n < 0)) n.natAbs = some (integer n) := by
      rw [Numeral.integerValue]
      by_cases hneg : n < 0
      · have hpow : Nat.pow 2 63 = 9223372036854775808 := rfl
        have hfits : ¬ (n.natAbs = 0 ∨ Nat.pow 2 63 < n.natAbs) := by omega
        have habs : -(n.natAbs : ℤ) = n := by omega
        rw [decide_eq_true hneg, if_neg (by decide), if_neg hfits, habs]
      · have habs : (n.natAbs : ℤ) = n := by omega
        rw [decide_eq_false hneg, if_pos (by decide), habs]
    simp only [Numeral.value, Numeral.accumulate_eq hsmall, and_self, if_true, hread, hvalue]
    rfl

section Floats

variable {x : Double}

theorem write_float (hx : 0 < x.mantissa) :
    (float x).write = signText x.negative ++ layout x.shortest := by
  rw [write, if_neg hx.ne', signText]
  cases x.negative with
  | true => rfl
  | false => rfl

/-- A double in range, rounded up by half a unit in the last place, does not exceed the limit. -/
theorem shortest_le (hx : 0 < x.mantissa) (hrange : (float x).InRange) :
    x.shortest.magnitude ≤ Double.limit := by
  have hbound := (Double.search_spec hx 18 (x.scale - 1)).2
  have hmantissa : (x.mantissa : ℚ) ≤ (2 ^ 53 - 1 : ℕ) :=
    Nat.cast_le.mpr (Nat.le_sub_one_of_lt hrange.1)
  have hpow : (2 : ℚ) ^ x.exponent ≤ 2 ^ (971 : ℤ) := zpow_le_zpow_right₀ one_le_two hrange.2
  calc x.shortest.magnitude ≤ (x.mantissa + 1 / 2) * 2 ^ x.exponent := hbound
    _ ≤ ((2 ^ 53 - 1 : ℕ) + 1 / 2) * 2 ^ (971 : ℤ) := by gcongr
    _ = Double.limit := by
      rw [Double.two_zpow_971, Double.limit]
      norm_num
      ring

/-- If its digits can be scaled, the text of a double has a value. -/
theorem exists_readsAs_of_laysOut {n : Numeral} (hx : 0 < x.mantissa)
    (hrange : (float x).InRange)
    (hlays : LaysOut n (signText x.negative ++ layout x.shortest) x.shortest)
    (hscale : n.IsScalable) : ∃ m, (float x).ReadsAs m := by
  have hwhole : Nat.ofDigitChars 10 n.whole 0 < 2 ^ 64 := by
    have hdigits := ofDigitChars_lt hlays.isText.whole.all
    have hpow : 10 ^ n.whole.length ≤ 10 ^ 16 := Nat.pow_le_pow_right (by decide) hlays.whole
    have hfits : 10 ^ 16 < 2 ^ 64 := by decide
    omega
  have hpower : n.power < 2 ^ 31 := by
    rcases hlays.power with hpower | hpower
    · omega
    · have hless : (10 : ℚ) ^ n.power < 10 ^ (309 : ℤ) := by
        refine hpower.trans_lt ((shortest_le hx hrange).trans_lt ?_)
        exact_mod_cast Double.limit_bounds.2
      have hsmall : n.power < 309 := (zpow_lt_zpow_iff_right₀ (by norm_num)).mp hless
      omega
  obtain ⟨m, hm⟩ := Numeral.exists_value hwhole hpower hscale
  exact ⟨m, n, write_float hx ▸ hlays.isText, hm⟩

/-- All but the two greatest doubles leave room for rounding. -/
theorem shortest_room (hx : 0 < x.mantissa) (hrange : (float x).InRange)
    (hgreat : x.mantissa ≤ 2 ^ 53 - 3 ∨ x.exponent < Double.maxExponent) :
    x.shortest.magnitude * Numeral.room < Double.limit := by
  have hbound := (Double.search_spec hx 18 (x.scale - 1)).2
  have hunit := Double.halfUnit_pos
  have hleft : (x.mantissa + 1 / 2) * 2 ^ x.exponent
      ≤ (2 ^ 53 - 5 / 2) * (2 * Double.halfUnit) := by
    rcases hgreat with hmantissa | hexponent
    · have hnat : x.mantissa + 3 ≤ 2 ^ 53 := by omega
      have hcast : (x.mantissa + 3 : ℚ) ≤ 2 ^ 53 := by exact_mod_cast hnat
      have hpow : (2 : ℚ) ^ x.exponent ≤ 2 ^ (971 : ℤ) := zpow_le_zpow_right₀ one_le_two hrange.2
      rw [Double.two_zpow_971] at hpow
      have hsum : (x.mantissa + 1 / 2 : ℚ) ≤ 2 ^ 53 - 5 / 2 := by linarith
      exact mul_le_mul hsum hpow (by positivity) (by norm_num)
    · have hnat : x.mantissa + 1 ≤ 2 ^ 53 := hrange.1
      have hcast : (x.mantissa + 1 : ℚ) ≤ 2 ^ 53 := by exact_mod_cast hnat
      have hpow : (2 : ℚ) ^ x.exponent ≤ 2 ^ (970 : ℤ) :=
        zpow_le_zpow_right₀ one_le_two (Int.le_sub_one_of_lt hexponent)
      have hpow' : (2 : ℚ) ^ x.exponent ≤ Double.halfUnit := by
        unfold Double.halfUnit
        exact hpow
      have hsum : (x.mantissa + 1 / 2 : ℚ) ≤ 2 ^ 53 - 1 / 2 := by linarith
      have hmul := mul_le_mul hsum hpow' (by positivity) (by norm_num)
      linarith
  have hroom : (0 : ℚ) ≤ Numeral.room := by norm_num [Numeral.room]
  calc x.shortest.magnitude * Numeral.room
      ≤ (2 ^ 53 - 5 / 2) * (2 * Double.halfUnit) * Numeral.room :=
        mul_le_mul_of_nonneg_right (hbound.trans hleft) hroom
    _ < Double.limit := by
      rw [Numeral.room, Double.limit]
      norm_num
      linarith

/-- The digits of the two greatest doubles behind the first one. -/
def greatest : List (ℕ × List Char) :=
  [(2 ^ 53 - 2, "7976931348623155".toList), (2 ^ 53 - 1, "7976931348623157".toList)]

/-- The greatest doubles are written with seventeen digits. -/
theorem greatest_shortest : ∀ negative : Bool, ∀ entry ∈ greatest,
    (Double.mk negative entry.1 971).shortest
      = ⟨Nat.ofDigitChars 10 ('1' :: entry.2) 0, 292⟩ ∧
    layout ⟨Nat.ofDigitChars 10 ('1' :: entry.2) 0, 292⟩ = exponential ('1' :: entry.2) 308 ∧
    entry.2.length = 16 ∧ ('1' :: entry.2).all Char.isDigit = true := by
  decide +kernel

/-- However many of these digits are taken up, they can be scaled. -/
theorem greatest_scale : ∀ negative : Bool, ∀ entry ∈ greatest, ∀ used ∈ entry.2.inits,
    (Numeral.scale negative (Nat.ofDigitChars 10 ('1' :: used) 0) (308 - used.length)).isSome := by
  decide +kernel

/-- A double with one of these mantissas has a value when it is written. -/
theorem exists_readsAs_greatest (negative : Bool) {entry : ℕ × List Char}
    (hentry : entry ∈ greatest) : ∃ m, (float ⟨negative, entry.1, 971⟩).ReadsAs m := by
  obtain ⟨hshortest, hlayout, hlength, hall⟩ := greatest_shortest negative entry hentry
  have hrange : 0 < entry.1 ∧ (float ⟨negative, entry.1, 971⟩).InRange := by
    have hmantissa : ∀ entry ∈ greatest, 0 < entry.1 ∧ entry.1 < 2 ^ 53 := by decide
    obtain ⟨hpos, hlt⟩ := hmantissa entry hentry
    exact ⟨hpos, hlt, le_refl 971⟩
  have hvalue : (Double.mk negative entry.1 971).shortest.magnitude
      = Nat.ofDigitChars 10 ('1' :: entry.2) 0
        * 10 ^ ((309 : ℤ) - ('1' :: entry.2).length) := by
    rw [hshortest, List.length_cons, hlength]
    rfl
  have hexponent : some (decide ((309 : ℤ) - 1 < 0), Nat.toDigits 10 ((309 : ℤ) - 1).natAbs)
      = some (false, ['3', '0', '8']) := by decide +kernel
  have hhead : ('1' :: entry.2).head? ≠ some '0' := by
    rw [List.head?_cons]
    decide
  have hlays := laysOut_exponential negative
    ⟨List.cons_ne_nil _ _, List.all_eq_true.mp hall, fun h => absurd h hhead⟩ hhead hvalue
  rw [hexponent] at hlays
  have hlays' : LaysOut ⟨negative, ['1'], entry.2, some (false, ['3', '0', '8'])⟩
      (signText negative ++ layout (Double.mk negative entry.1 971).shortest)
      (Double.mk negative entry.1 971).shortest := by
    rw [hshortest] at hlays
    rw [hshortest, hlayout]
    exact hlays
  refine exists_readsAs_of_laysOut hrange.1 hrange.2 hlays' fun used hused _ => ?_
  have hscale := greatest_scale negative entry hentry used ((List.mem_inits _ _).mpr hused)
  exact Option.isSome_iff_exists.mp hscale

/-- Every number in range is written as a numeral that has a value. -/
theorem exists_readsAs {n : Number} (hn : n.InRange) : ∃ m, n.ReadsAs m := by
  cases n with
  | integer n => exact ⟨_, integer_readsAs hn⟩
  | float x =>
    rcases Nat.eq_zero_or_pos x.mantissa with hzero | hx
    · -- Zero is written as `0.0`.
      have hzeroValue : Numeral.magnitude ⟨x.negative, ['0'], ['0'], none⟩ = 0 := by
        rw [Numeral.magnitude]
        exact zero_mul _
      have htext : Numeral.IsText ⟨x.negative, ['0'], ['0'], none⟩ (float x).write := by
        refine ⟨isWhole_zero, isDigit_zeros 1, [], .none, ?_⟩
        rw [write, if_pos hzero]
        cases x.negative with
        | true => rfl
        | false => rfl
      obtain ⟨m, hm⟩ := Numeral.exists_value (n := ⟨x.negative, ['0'], ['0'], none⟩)
        (by decide : Nat.ofDigitChars 10 ['0'] 0 < 2 ^ 64) (by decide : (0 : ℤ) < 2 ^ 31)
        (Numeral.isScalable_of_magnitude (by rw [hzeroValue, zero_mul]; exact Double.limit_pos))
      exact ⟨m, _, htext, hm⟩
    by_cases hgreat : x.mantissa ≤ 2 ^ 53 - 3 ∨ x.exponent < Double.maxExponent
    · obtain ⟨whole, fraction, exponent, hlays⟩ :=
        exists_laysOut x.negative (Double.search_spec hx 18 (x.scale - 1)).1
      refine exists_readsAs_of_laysOut hx hn hlays (Numeral.isScalable_of_magnitude ?_)
      rw [hlays.magnitude]
      exact shortest_room hx hn hgreat
    · obtain ⟨negative, mantissa, exponent⟩ := x
      have hmantissa : mantissa = 2 ^ 53 - 2 ∨ mantissa = 2 ^ 53 - 1 := by
        have hlt : mantissa < 2 ^ 53 := hn.1
        have hgreat' : ¬ mantissa ≤ 2 ^ 53 - 3 := fun h => hgreat (.inl h)
        omega
      obtain rfl : exponent = 971 := le_antisymm hn.2 (not_lt.mp fun h => hgreat (.inr h))
      rcases hmantissa with rfl | rfl
      · exact exists_readsAs_greatest negative List.mem_cons_self
      · exact exists_readsAs_greatest negative (List.mem_cons_of_mem _ List.mem_cons_self)

end Floats
end Number
end Json
end AliasCheck
