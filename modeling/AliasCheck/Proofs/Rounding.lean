import AliasCheck.Decimal.Double
import Mathlib.Algebra.Order.Field.Power
import Mathlib.Data.Rat.Cast.Order
import Mathlib.Tactic.FieldSimp
import Mathlib.Tactic.Linarith
import Mathlib.Tactic.NormNum
import Mathlib.Tactic.Positivity
import Mathlib.Tactic.Ring

/-!
# Rounding to doubles

A fraction is rounded to a double unless it is too great. How great it may be, and how far the
double can be above the fraction, is said in terms of the magnitudes of doubles as rational numbers.
-/

namespace AliasCheck
namespace Double

/-- The magnitude of a double. -/
def magnitude (x : Double) : ℚ := x.mantissa * 2 ^ x.exponent

/-- Half a unit in the last place of the greatest doubles. -/
@[irreducible] def halfUnit : ℚ := 2 ^ (970 : ℤ)

/-- Half a unit in the last place above the greatest double: from here on nothing is rounded to a
double. -/
def limit : ℚ := (2 ^ 54 - 1) * halfUnit

/-! ## Powers and fractions -/

section Powers

variable {num den : ℕ}

/-- An integer power as the quotient of two natural powers, one of which is one. -/
theorem zpow_eq_div (b : ℚ) (e : ℤ) : b ^ e = b ^ e.toNat / b ^ (-e).toNat := by
  obtain ⟨n, rfl | rfl⟩ := e.eq_nat_or_neg
  · simp
  · simp

theorem halfUnit_pos : 0 < halfUnit := by
  unfold halfUnit
  positivity

theorem two_zpow_971 : (2 : ℚ) ^ (971 : ℤ) = 2 * halfUnit := by
  unfold halfUnit
  rw [show (971 : ℤ) = 970 + 1 from rfl, zpow_add_one₀ two_ne_zero, mul_comm]

theorem two_zpow_972 : (2 : ℚ) ^ (972 : ℤ) = 4 * halfUnit := by
  rw [show (972 : ℤ) = 971 + 1 from rfl, zpow_add_one₀ two_ne_zero, two_zpow_971]
  ring

/-- The limit as a natural number, if `n` is the exponent of `halfUnit`. -/
theorem limit_eq {n : ℕ} (hn : n = 970) : limit = ((2 ^ 54 - 1) * 2 ^ n : ℕ) := by
  have hunit : halfUnit = 2 ^ n := by
    unfold halfUnit
    rw [← zpow_natCast, hn]
    rfl
  rw [limit, hunit]
  norm_num

/-- The limit has 309 digits. -/
theorem limit_bounds : (10 : ℚ) ^ 308 < limit ∧ limit < (10 : ℚ) ^ 309 := by
  have hlow : 10 ^ 308 < (2 ^ 54 - 1) * 2 ^ 970 := by decide +kernel
  have hhigh : (2 ^ 54 - 1) * 2 ^ 970 < 10 ^ 309 := by decide +kernel
  have hcast : ∀ k : ℕ, (10 : ℚ) ^ k = (10 ^ k : ℕ) := fun k => (Nat.cast_pow 10 k).symm
  rw [limit_eq rfl, hcast, hcast, Nat.cast_lt, Nat.cast_lt]
  exact ⟨hlow, hhigh⟩

theorem limit_pos : 0 < limit := mul_pos (by norm_num) halfUnit_pos

theorem magnitude_nonneg (x : Double) : 0 ≤ x.magnitude := by
  unfold magnitude
  positivity

theorem scaled_pos (hden : 0 < den) (e : ℤ) : 0 < (scaled num den e).2 :=
  Nat.mul_pos hden (Nat.pow_pos (by decide))

/-- Scaling divides a fraction by a power of two. -/
theorem scaled_eq (num den : ℕ) (e : ℤ) :
    ((scaled num den e).1 : ℚ) / (scaled num den e).2 = num / den / 2 ^ e := by
  rw [zpow_eq_div]
  simp only [scaled, Nat.pow_eq, Nat.cast_mul, Nat.cast_pow, Nat.cast_ofNat]
  field_simp

theorem fraction_pos (x : Double) : 0 < x.fraction.2 := Nat.pow_pos (by decide)

/-- The fraction of a double is its magnitude. -/
theorem fraction_eq (x : Double) : (x.fraction.1 : ℚ) / x.fraction.2 = x.magnitude := by
  rw [magnitude, zpow_eq_div]
  simp only [fraction, Nat.pow_eq, Nat.cast_mul, Nat.cast_pow, Nat.cast_ofNat]
  rw [mul_div_assoc]

end Powers

/-! ## Rounding to natural numbers -/

section RoundDiv

variable {n d k : ℕ}

theorem div_le_roundDiv (n d : ℕ) : n / d ≤ roundDiv n d := by
  dsimp only [roundDiv]
  split <;> omega

/-- Nothing is rounded up by more than one half. -/
theorem roundDiv_le (hd : 0 < d) : (roundDiv n d : ℚ) ≤ n / d + 1 / 2 := by
  have hsplit : d * (n / d) + n % d = n := Nat.div_add_mod n d
  have hround : 2 * (d * roundDiv n d) ≤ 2 * n + d := by
    dsimp only [roundDiv]
    split
    · rw [Nat.mul_add]
      omega
    · omega
  have hpos : (0 : ℚ) < d := Nat.cast_pos.mpr hd
  have hcast : 2 * (d * (roundDiv n d : ℚ)) ≤ 2 * n + d := by exact_mod_cast hround
  rw [div_add_div _ _ hpos.ne' two_ne_zero, le_div_iff₀ (by positivity)]
  linarith

/-- What is below a natural number is not rounded to more than it. -/
theorem roundDiv_le_of_lt (hd : 0 < d) (h : (n : ℚ) / d < k) : roundDiv n d ≤ k := by
  have hround : (roundDiv n d : ℚ) ≤ n / d + 1 / 2 := roundDiv_le hd
  have hlt : (roundDiv n d : ℚ) < (k + 1 : ℕ) := by
    push_cast
    linarith
  exact Nat.lt_succ_iff.mp (Nat.cast_lt.mp hlt)

/-- What is not below a natural number is not rounded to less than it. -/
theorem le_roundDiv (hd : 0 < d) (h : (k : ℚ) ≤ n / d) : k ≤ roundDiv n d := by
  have hpos : (0 : ℚ) < d := Nat.cast_pos.mpr hd
  have hmul : k * d ≤ n := by exact_mod_cast (le_div_iff₀ hpos).mp h
  exact ((Nat.le_div_iff_mul_le hd).mpr hmul).trans (div_le_roundDiv n d)

end RoundDiv

/-! ## The exponent -/

section Exponent

variable {num den : ℕ}

/-- A positive number lies between the powers of two around its logarithm. -/
theorem log2_bounds (hnum : 0 < num) :
    (2 : ℚ) ^ num.log2 ≤ num ∧ (num : ℚ) < 2 ^ (num.log2 + 1) := by
  have hlow : 2 ^ num.log2 ≤ num := Nat.log2_self_le hnum.ne'
  have hhigh : num < 2 ^ (num.log2 + 1) := Nat.lt_log2_self
  exact ⟨by exact_mod_cast hlow, by exact_mod_cast hhigh⟩

/-- Without the bound from below, the exponent gives the fraction 53 bits before the point. -/
theorem exists_exponentOf (hnum : 0 < num) (hden : 0 < den) : ∃ e : ℤ,
    exponentOf num den = max minExponent e ∧ (num : ℚ) / den < 2 ^ 53 * 2 ^ e ∧
      2 ^ 52 * 2 ^ e ≤ (num : ℚ) / den := by
  obtain ⟨hnumLow, hnumHigh⟩ := log2_bounds hnum
  obtain ⟨hdenLow, hdenHigh⟩ := log2_bounds hden
  have hdenPos : (0 : ℚ) < den := Nat.cast_pos.mpr hden
  generalize hguess : (num.log2 : ℤ) - den.log2 - 53 = guess
  have hpow : (2 : ℚ) ^ guess * 2 ^ 53 * 2 ^ den.log2 = 2 ^ num.log2 := by
    rw [← hguess, ← zpow_natCast, ← zpow_natCast, ← zpow_natCast,
      ← zpow_add₀ two_ne_zero, ← zpow_add₀ two_ne_zero]
    congr 1
    push_cast
    ring
  have hpos : (0 : ℚ) < 2 ^ guess := by positivity
  -- The guess gives 53 or 54 bits.
  have hlow : 2 ^ 52 * (2 : ℚ) ^ guess ≤ num / den := by
    rw [le_div_iff₀ hdenPos]
    rw [pow_succ] at hdenHigh
    nlinarith
  have hhigh : (num : ℚ) / den < 2 ^ 54 * 2 ^ guess := by
    rw [div_lt_iff₀ hdenPos]
    rw [pow_succ] at hnumHigh
    nlinarith
  have hbits : (scaled num den guess).1 / (scaled num den guess).2 < Nat.pow 2 53 ↔
      (num : ℚ) / den < 2 ^ 53 * 2 ^ guess := by
    have hd : 0 < (scaled num den guess).2 := scaled_pos hden guess
    have heq := scaled_eq num den guess
    have hdPos : (0 : ℚ) < (scaled num den guess).2 := Nat.cast_pos.mpr hd
    rw [Nat.div_lt_iff_lt_mul hd, ← div_lt_iff₀ hpos, ← heq, div_lt_iff₀ hdPos, Nat.pow_eq]
    exact_mod_cast Iff.rfl
  have hexponent : exponentOf num den = max minExponent
      (if (scaled num den guess).1 / (scaled num den guess).2 < Nat.pow 2 53 then guess
        else guess + 1) := by
    rw [← hguess]
    rfl
  by_cases h : (num : ℚ) / den < 2 ^ 53 * 2 ^ guess
  · rw [if_pos (hbits.mpr h)] at hexponent
    exact ⟨guess, hexponent, h, hlow⟩
  · rw [if_neg (mt hbits.mp h)] at hexponent
    have hnext : (2 : ℚ) ^ (guess + 1) = 2 * 2 ^ guess := by
      rw [zpow_add_one₀ two_ne_zero, mul_comm]
    refine ⟨guess + 1, hexponent, ?_, ?_⟩
    · rw [hnext]
      linarith
    · rw [hnext]
      linarith

/-- At its exponent a fraction has at most 53 bits before the point, and as many unless the exponent
is the least one. -/
theorem exponentOf_spec (hnum : 0 < num) (hden : 0 < den) :
    minExponent ≤ exponentOf num den ∧
      (num : ℚ) / den < 2 ^ 53 * 2 ^ exponentOf num den ∧
      (exponentOf num den = minExponent ∨
        2 ^ 52 * 2 ^ exponentOf num den ≤ (num : ℚ) / den) := by
  obtain ⟨e, he, hhigh, hlow⟩ := exists_exponentOf hnum hden
  rw [he]
  refine ⟨le_max_left _ _, ?_, ?_⟩
  · have hmono : (2 : ℚ) ^ e ≤ 2 ^ max minExponent e :=
      zpow_le_zpow_right₀ one_le_two (le_max_right _ _)
    linarith
  · rcases max_cases minExponent e with ⟨hmax, -⟩ | ⟨hmax, -⟩
    · exact .inl hmax
    · rw [hmax]
      exact .inr hlow

end Exponent

/-! ## The rounded fraction -/

/-- The double with a mantissa of at most 53 bits, or with the next power of two in its place. -/
def rounded (negative : Bool) (m : ℕ) (e : ℤ) : Double :=
  if m = Nat.pow 2 53 then ⟨negative, Nat.pow 2 52, e + 1⟩ else ⟨negative, m, e⟩

theorem magnitude_rounded (negative : Bool) (m : ℕ) (e : ℤ) :
    (rounded negative m e).magnitude = m * 2 ^ e := by
  rw [rounded]
  split
  · rename_i hm
    simp only [magnitude, hm, zpow_add_one₀ (two_ne_zero : (2 : ℚ) ≠ 0), Nat.pow_eq]
    push_cast
    ring
  · rfl

section OfFraction

variable {negative : Bool} {num den : ℕ} {y : Double}

/-- How a fraction is rounded: to a natural number at its exponent. -/
theorem ofFraction_eq (negative : Bool) (hnum : 0 < num) (hden : 0 < den) : ∃ (m : ℕ) (e : ℤ),
    ofFraction negative num den = (if maxExponent < (rounded negative m e).exponent then none
      else some (rounded negative m e)) ∧
    m ≤ 2 ^ 53 ∧ m * 2 ^ e ≤ (num : ℚ) / den + 2 ^ e / 2 ∧
    (e = minExponent ∨ 2 ^ 52 ≤ m ∧ 2 ^ 52 * 2 ^ e ≤ (num : ℚ) / den) ∧ minExponent ≤ e ∧
    (num : ℚ) / den < 2 ^ 53 * 2 ^ e := by
  obtain ⟨hmin, hhigh, hlow⟩ := exponentOf_spec hnum hden
  generalize he : exponentOf num den = e at hmin hhigh hlow
  have hd : 0 < (scaled num den e).2 := scaled_pos hden e
  have heq := scaled_eq num den e
  have hpos : (0 : ℚ) < 2 ^ e := by positivity
  refine ⟨roundDiv (scaled num den e).1 (scaled num den e).2, e, ?_, ?_, ?_, ?_, hmin, hhigh⟩
  · rw [ofFraction, if_neg hnum.ne', he]
    rfl
  · refine roundDiv_le_of_lt hd ?_
    rw [heq, div_lt_iff₀ hpos]
    exact_mod_cast hhigh
  · have hround := roundDiv_le (n := (scaled num den e).1) hd
    rw [heq] at hround
    calc ((roundDiv (scaled num den e).1 (scaled num den e).2 : ℕ) : ℚ) * 2 ^ e
        ≤ ((num : ℚ) / den / 2 ^ e + 1 / 2) * 2 ^ e := by gcongr
      _ = (num : ℚ) / den + 2 ^ e / 2 := by field_simp
  · refine hlow.imp_right fun hlow => ⟨le_roundDiv hd ?_, hlow⟩
    rw [heq, le_div_iff₀ hpos]
    exact_mod_cast hlow

theorem ofFraction_zero (negative : Bool) (den : ℕ) :
    ofFraction negative 0 den = some (zero negative) := by
  rw [ofFraction, if_pos rfl]

/-- What is below the limit is rounded to a double. -/
theorem exists_ofFraction (negative : Bool) (hden : 0 < den) (h : (num : ℚ) / den < limit) :
    ∃ y, ofFraction negative num den = some y := by
  rcases num.eq_zero_or_pos with rfl | hnum
  · exact ⟨_, ofFraction_zero negative den⟩
  obtain ⟨m, e, heq, hm, hround, hlow, -⟩ := ofFraction_eq negative hnum hden
  have hfits : ¬ maxExponent < (rounded negative m e).exponent := by
    intro hgreat
    have he : 971 ≤ e ∧ (e = 971 → m = 2 ^ 53) := by
      rw [rounded] at hgreat
      split at hgreat
      · rename_i hm'
        exact ⟨Int.lt_add_one_iff.mp hgreat, fun _ => hm'⟩
      · have hgreat' : 971 < e := hgreat
        exact ⟨hgreat'.le, fun he => absurd he hgreat'.ne'⟩
    have hnormal : 2 ^ 52 * 2 ^ e ≤ (num : ℚ) / den := by
      rcases hlow with hleast | ⟨-, hlow⟩
      · have hneg : minExponent < 0 := by decide
        omega
      · exact hlow
    have hunit := halfUnit_pos
    unfold limit at h
    rcases he.1.eq_or_lt with he' | he'
    · -- Only what is rounded up to the next power of two is too great at the greatest exponent.
      rw [he.2 he'.symm, ← he', two_zpow_971] at hround
      push_cast at hround
      linarith
    · have hpow : (2 : ℚ) ^ (972 : ℤ) ≤ 2 ^ e := zpow_le_zpow_right₀ one_le_two he'
      rw [two_zpow_972] at hpow
      linarith
  rw [if_neg hfits] at heq
  exact ⟨_, heq⟩

/-- No double reaches the limit. -/
theorem magnitude_lt_limit (hden : 0 < den) (h : ofFraction negative num den = some y) :
    y.magnitude < limit := by
  rcases num.eq_zero_or_pos with rfl | hnum
  · rw [ofFraction_zero] at h
    cases h
    simpa [magnitude, zero] using limit_pos
  obtain ⟨m, e, heq, hm, -⟩ := ofFraction_eq negative hnum hden
  rw [h] at heq
  split at heq
  · cases heq
  · rename_i hfits
    cases heq
    have he : (rounded negative m e).exponent ≤ 971 := not_lt.mp hfits
    have hmantissa : (rounded negative m e).mantissa ≤ 2 ^ 53 - 1 := by
      rw [rounded]
      split
      · show Nat.pow 2 52 ≤ 2 ^ 53 - 1
        decide
      · rename_i hne
        exact Nat.le_sub_one_of_lt (lt_of_le_of_ne hm hne)
    have hpow : (2 : ℚ) ^ (rounded negative m e).exponent ≤ 2 ^ (971 : ℤ) :=
      zpow_le_zpow_right₀ one_le_two he
    have hcast : ((rounded negative m e).mantissa : ℚ) ≤ (2 ^ 53 - 1 : ℕ) :=
      Nat.cast_le.mpr hmantissa
    have hunit := halfUnit_pos
    calc (rounded negative m e).magnitude ≤ (2 ^ 53 - 1 : ℕ) * 2 ^ (971 : ℤ) :=
          mul_le_mul hcast hpow (by positivity) (Nat.cast_nonneg _)
      _ = (2 ^ 53 - 1 : ℕ) * (2 * halfUnit) := by rw [two_zpow_971]
      _ < limit := by
        unfold limit
        norm_num
        linarith

/-- A fraction that is not below one is rounded to a double that is not below one either, and not
above it by more than the last of 53 bits. -/
theorem magnitude_bounds (hden : 0 < den) (hone : 1 ≤ (num : ℚ) / den)
    (h : ofFraction negative num den = some y) :
    1 ≤ y.magnitude ∧ y.magnitude ≤ num / den * (1 + 1 / 2 ^ 53) := by
  have hnum : 0 < num := by
    rcases num.eq_zero_or_pos with rfl | hnum
    · norm_num at hone
    · exact hnum
  obtain ⟨m, e, heq, -, hround, hlow, -, hhigh⟩ := ofFraction_eq negative hnum hden
  have hpos : (0 : ℚ) < 2 ^ e := by positivity
  -- The exponent is not the least one, since the fraction would then be below one.
  have he : -52 ≤ e := by
    by_contra hlt
    have hpow : (2 : ℚ) ^ e ≤ 2 ^ (-53 : ℤ) := zpow_le_zpow_right₀ one_le_two (by omega)
    have hunit : (2 : ℚ) ^ (-53 : ℤ) = 1 / 2 ^ 53 := by norm_num
    rw [hunit] at hpow
    linarith
  have hnormal : 2 ^ 52 ≤ m ∧ 2 ^ 52 * 2 ^ e ≤ (num : ℚ) / den := by
    rcases hlow with hleast | hnormal
    · have hneg : minExponent < -52 := by decide
      omega
    · exact hnormal
  have hy : y = rounded negative m e := by
    rw [h] at heq
    split at heq
    · cases heq
    · cases heq
      rfl
  rw [hy, magnitude_rounded]
  constructor
  · have hm : (2 ^ 52 : ℚ) ≤ m := by exact_mod_cast hnormal.1
    have hpow : (2 : ℚ) ^ (-52 : ℤ) ≤ 2 ^ e := zpow_le_zpow_right₀ one_le_two he
    calc (1 : ℚ) = 2 ^ 52 * 2 ^ (-52 : ℤ) := by norm_num
      _ ≤ m * 2 ^ e := by gcongr
  · linarith [hnormal.2]

end OfFraction

/-! ## Products and quotients -/

section Arithmetic

variable {x y z : Double}

theorem fraction_one_pos (h : 1 ≤ y.magnitude) : 0 < y.fraction.1 := by
  rcases Nat.eq_zero_or_pos y.fraction.1 with hzero | hpos
  · rw [← fraction_eq, hzero] at h
    norm_num at h
  · exact hpos

/-- A product below the limit is rounded to a double. -/
theorem exists_mul (h : x.magnitude * y.magnitude < limit) : ∃ z, x.mul y = some z := by
  refine exists_ofFraction x.negative (Nat.mul_pos x.fraction_pos y.fraction_pos) ?_
  rw [Nat.cast_mul, Nat.cast_mul, mul_div_mul_comm, fraction_eq, fraction_eq]
  exact h

/-- So is a quotient. -/
theorem exists_div (hx : x.magnitude < limit) (hy : 1 ≤ y.magnitude) :
    ∃ z, x.div y = some z ∧ z.magnitude < limit := by
  have hden : 0 < x.fraction.2 * y.fraction.1 := Nat.mul_pos x.fraction_pos (fraction_one_pos hy)
  have hlt : ((x.fraction.1 * y.fraction.2 : ℕ) : ℚ) / (x.fraction.2 * y.fraction.1 : ℕ)
      < limit := by
    rw [Nat.cast_mul, Nat.cast_mul, mul_div_mul_comm, fraction_eq, ← inv_div, fraction_eq]
    have hinv : y.magnitude⁻¹ ≤ 1 := inv_le_one_of_one_le₀ hy
    exact (mul_le_of_le_one_right x.magnitude_nonneg hinv).trans_lt hx
  obtain ⟨z, hz⟩ := exists_ofFraction x.negative hden hlt
  exact ⟨z, hz, magnitude_lt_limit hden hz⟩

end Arithmetic
end Double
end AliasCheck
