import AliasCheck.Json.Numeral
import AliasCheck.Proofs.Rounding

/-!
# Values of numerals

A numeral has a value unless it is too great. Its digits are taken up as far as they fit in 64 bits
and the others are dropped, so what is scaled by a power of ten is never more than the numeral says.
Rounding happens three times on the way, so a little room below the limit is needed.
-/

namespace AliasCheck
namespace Json
namespace Numeral

/-! ## Digits that are taken up -/

section Accumulate

variable {limit v v' : ℕ} {ds rest : List Char}

theorem le_ofDigitChars (v : ℕ) (ds : List Char) : v ≤ Nat.ofDigitChars 10 ds v := by
  induction ds generalizing v with
  | nil => exact Nat.le_refl v
  | cons d ds ih =>
    rw [Nat.ofDigitChars_cons]
    exact Nat.le_trans (by omega) (ih _)

/-- The digits that are taken up are the first ones, and they stay below the limit. -/
theorem exists_accumulate (hv : v < limit) (h : accumulate limit v ds = (v', rest)) :
    ∃ used, ds = used ++ rest ∧ v' = Nat.ofDigitChars 10 used v ∧ v' < limit := by
  induction ds generalizing v with
  | nil =>
    cases h
    exact ⟨[], rfl, rfl, hv⟩
  | cons d ds ih =>
    rw [accumulate] at h
    split at h
    · rename_i hnext
      obtain ⟨used, rfl, hv', hlt⟩ := ih hnext h
      exact ⟨d :: used, rfl, by rw [Nat.ofDigitChars_cons, hv'], hlt⟩
    · cases h
      exact ⟨[], rfl, rfl, hv⟩

/-- All digits are taken up if they make a number below the limit. -/
theorem accumulate_eq (h : Nat.ofDigitChars 10 ds v < limit) :
    accumulate limit v ds = (Nat.ofDigitChars 10 ds v, []) := by
  induction ds generalizing v with
  | nil => rfl
  | cons d ds ih =>
    rw [Nat.ofDigitChars_cons] at h ⊢
    have hnext : 10 * v + (d.toNat - '0'.toNat) < limit :=
      Nat.lt_of_le_of_lt (le_ofDigitChars _ ds) h
    rw [accumulate]
    simp only [if_pos hnext]
    exact ih h

end Accumulate

/-! ## Scaling by powers of ten -/

/-- The room that is needed to round two numbers and their product. -/
def room : ℚ := (1 + 1 / 2 ^ 53) ^ 2

section Scale

variable {digits k : ℕ} {e : ℤ}

theorem ten_pow_lt_limit (hk : k ≤ 308) : (10 : ℚ) ^ k < Double.limit :=
  (pow_le_pow_right₀ (by norm_num) hk).trans_lt Double.limit_bounds.1

/-- Powers of ten that are not too great are rounded to doubles. -/
theorem exists_powerOfTen (hk : k ≤ 308) : ∃ p, powerOfTen k = some p ∧ 1 ≤ p.magnitude ∧
    p.magnitude ≤ 10 ^ k * (1 + 1 / 2 ^ 53) := by
  have hcast : ((Nat.pow 10 k : ℕ) : ℚ) / (1 : ℕ) = 10 ^ k := by
    rw [Nat.pow_eq, Nat.cast_pow, Nat.cast_one, div_one, Nat.cast_ofNat]
  have hone : (1 : ℚ) ≤ (Nat.pow 10 k : ℕ) / (1 : ℕ) := by
    rw [hcast]
    exact one_le_pow₀ (by norm_num)
  have hlimit : ((Nat.pow 10 k : ℕ) : ℚ) / (1 : ℕ) < Double.limit := by
    rw [hcast]
    exact ten_pow_lt_limit hk
  obtain ⟨p, hp⟩ := Double.exists_ofFraction false Nat.one_pos hlimit
  have hbounds := Double.magnitude_bounds Nat.one_pos hone hp
  rw [hcast] at hbounds
  exact ⟨p, hp, hbounds⟩

/-- Digits that fit in 64 bits are rounded to a double. -/
theorem exists_ofFraction_digits (negative : Bool) (h : digits < 2 ^ 64) :
    ∃ x, Double.ofFraction negative digits 1 = some x ∧ x.magnitude < Double.limit ∧
      (digits ≠ 0 → x.magnitude ≤ digits * (1 + 1 / 2 ^ 53)) := by
  have hsmall : (digits : ℚ) / (1 : ℕ) < Double.limit := by
    have hdigits : digits ≤ 10 ^ 20 := h.le.trans (by decide)
    have hcast : (digits : ℚ) ≤ 10 ^ 20 := by exact_mod_cast hdigits
    rw [Nat.cast_one, div_one]
    exact hcast.trans_lt (ten_pow_lt_limit (by decide))
  obtain ⟨x, hx⟩ := Double.exists_ofFraction negative Nat.one_pos hsmall
  refine ⟨x, hx, Double.magnitude_lt_limit Nat.one_pos hx, fun hne => ?_⟩
  have hone : (1 : ℚ) ≤ (digits : ℚ) / (1 : ℕ) := by
    rw [Nat.cast_one, div_one]
    exact_mod_cast Nat.one_le_iff_ne_zero.mpr hne
  have hbound := (Double.magnitude_bounds Nat.one_pos hone hx).2
  rwa [Nat.cast_one, div_one] at hbound

/-- Digits that fit in 64 bits are scaled by a power of ten if there is room for it. -/
theorem exists_scale (negative : Bool) (h : digits < 2 ^ 64)
    (hlimit : digits * 10 ^ e * room < Double.limit) : ∃ y, scale negative digits e = some y := by
  obtain ⟨x, hx, hxLimit, hxBound⟩ := exists_ofFraction_digits negative h
  rw [scale, hx]
  simp only [Option.bind_eq_bind, Option.bind_some]
  by_cases hzero : digits = 0
  · rw [if_pos hzero]
    exact ⟨x, rfl⟩
  rw [if_neg hzero]
  have hdigits : (1 : ℚ) ≤ digits := by exact_mod_cast Nat.one_le_iff_ne_zero.mpr hzero
  by_cases he : 0 ≤ e
  · obtain ⟨k, rfl⟩ := Int.eq_ofNat_of_zero_le he
    rw [zpow_natCast] at hlimit
    have hpow : (0 : ℚ) < 10 ^ k := by positivity
    have hroom : (1 : ℚ) ≤ room := by norm_num [room]
    have hk : k ≤ 308 := by
      by_contra hgreat
      have hmore : (10 : ℚ) ^ 309 ≤ 10 ^ k :=
        pow_le_pow_right₀ (by norm_num) (Nat.lt_of_not_le hgreat)
      have hless : (10 : ℚ) ^ k ≤ digits * 10 ^ k * room := by
        calc (10 : ℚ) ^ k = 1 * 10 ^ k * 1 := by ring
          _ ≤ digits * 10 ^ k * room := by gcongr
      exact absurd (hmore.trans (hless.trans hlimit.le)) (not_le.mpr Double.limit_bounds.2)
    obtain ⟨p, hp, -, hpBound⟩ := exists_powerOfTen hk
    rw [if_pos he, Int.natAbs_natCast, if_pos hk, hp]
    refine Double.exists_mul (lt_of_le_of_lt ?_ hlimit)
    calc x.magnitude * p.magnitude
        ≤ (digits * (1 + 1 / 2 ^ 53)) * (10 ^ k * (1 + 1 / 2 ^ 53)) :=
          mul_le_mul (hxBound hzero) hpBound p.magnitude_nonneg (by positivity)
      _ = digits * 10 ^ k * room := by
          rw [room]
          ring
  · rw [if_neg he]
    by_cases hk : e.natAbs ≤ 308
    · obtain ⟨p, hp, hpOne, -⟩ := exists_powerOfTen hk
      obtain ⟨y, hy, -⟩ := Double.exists_div hxLimit hpOne
      rw [if_pos hk, hp]
      exact ⟨y, hy⟩
    rw [if_neg hk]
    by_cases hk' : e.natAbs ≤ 616
    · obtain ⟨p, hp, hpOne, -⟩ := exists_powerOfTen (le_refl 308)
      obtain ⟨y, hy, hyLimit⟩ := Double.exists_div hxLimit hpOne
      obtain ⟨p', hp', hpOne', -⟩ := exists_powerOfTen (k := e.natAbs - 308) (by omega)
      obtain ⟨z, hz, -⟩ := Double.exists_div hyLimit hpOne'
      rw [if_pos hk', hp]
      simp only [Option.bind_some, hy, hp']
      exact ⟨z, hz⟩
    · rw [if_neg hk']
      exact ⟨_, rfl⟩

end Scale

/-! ## The value of a numeral -/

/-- The power of ten behind the digits of a numeral. -/
def power (n : Numeral) : ℤ :=
  match n.exponent with
  | none => 0
  | some (below, digits) =>
    if below then -(Nat.ofDigitChars 10 digits 0 : ℤ) else Nat.ofDigitChars 10 digits 0

/-- What a numeral says, without its sign. -/
def magnitude (n : Numeral) : ℚ :=
  Nat.ofDigitChars 10 (n.whole ++ n.fraction) 0 * 10 ^ (n.power - n.fraction.length)

section Value

variable {n : Numeral}

theorem power_of_none (h : n.exponent = none) : n.power = 0 := by
  rw [power, h]

theorem power_of_some {below : Bool} {ds : List Char} (h : n.exponent = some (below, ds)) :
    n.power = if below then -(Nat.ofDigitChars 10 ds 0 : ℤ) else Nat.ofDigitChars 10 ds 0 := by
  rw [power, h]

/-- Every number that is taken up from the digits of the numeral can be scaled as the numeral
says. -/
def IsScalable (n : Numeral) : Prop :=
  ∀ used, used <+: n.fraction → Nat.ofDigitChars 10 (n.whole ++ used) 0 < 2 ^ 64 →
    ∃ y, scale n.negative (Nat.ofDigitChars 10 (n.whole ++ used) 0) (n.power - used.length)
      = some y

/-- Digits that are dropped only make a numeral smaller. -/
theorem isScalable_of_magnitude (h : n.magnitude * room < Double.limit) : n.IsScalable := by
  rintro used ⟨rest, hrest⟩ hdigits
  refine exists_scale n.negative hdigits (lt_of_le_of_lt ?_ h)
  have hroom : (0 : ℚ) ≤ room := by norm_num [room]
  refine mul_le_mul_of_nonneg_right ?_ hroom
  -- The digits of the numeral are those that are taken up and those that are dropped.
  have hsplit : Nat.ofDigitChars 10 (n.whole ++ n.fraction) 0
      = 10 ^ rest.length * Nat.ofDigitChars 10 (n.whole ++ used) 0
        + Nat.ofDigitChars 10 rest 0 := by
    rw [← hrest, ← List.append_assoc, Nat.ofDigitChars_append,
      Nat.ofDigitChars_eq_ofDigitChars_zero]
  have hle : (10 : ℚ) ^ rest.length * Nat.ofDigitChars 10 (n.whole ++ used) 0
      ≤ Nat.ofDigitChars 10 (n.whole ++ n.fraction) 0 := by
    exact_mod_cast hsplit ▸ Nat.le_add_right _ _
  have hpow : (10 : ℚ) ^ (n.power - used.length)
      = 10 ^ rest.length * 10 ^ (n.power - n.fraction.length) := by
    rw [← zpow_natCast, ← zpow_add₀ (by norm_num), ← hrest, List.length_append]
    congr 1
    push_cast
    ring
  calc (Nat.ofDigitChars 10 (n.whole ++ used) 0 : ℚ) * 10 ^ (n.power - used.length)
      = 10 ^ rest.length * Nat.ofDigitChars 10 (n.whole ++ used) 0
          * 10 ^ (n.power - n.fraction.length) := by
        rw [hpow]
        ring
    _ ≤ n.magnitude := by
        rw [magnitude]
        gcongr

/-- A numeral has a value if no digit in front of its point is dropped, its exponent is not too
great and its digits can be scaled. -/
theorem exists_value (hwhole : Nat.ofDigitChars 10 n.whole 0 < 2 ^ 64) (hpower : n.power < 2 ^ 31)
    (hscale : n.IsScalable) : ∃ m, ∀ stop, n.value stop = .ok m := by
  have htaken : accumulate (Nat.pow 2 64) 0 n.whole
      = (Nat.ofDigitChars 10 n.whole 0, []) := accumulate_eq hwhole
  obtain ⟨digits, unused, hfraction⟩ : ∃ digits unused, accumulate (Nat.pow 2 64)
      (Nat.ofDigitChars 10 n.whole 0) n.fraction = (digits, unused) := ⟨_, _, rfl⟩
  obtain ⟨used, hused, hdigits, hlt⟩ := exists_accumulate hwhole hfraction
  have hdigits' : Nat.ofDigitChars 10 (n.whole ++ used) 0 = digits := by
    rw [Nat.ofDigitChars_append, hdigits]
  obtain ⟨y, hy⟩ := hscale used ⟨unused, hused.symm⟩ (hdigits' ▸ hlt)
  have hplaces : ((n.fraction.length - unused.length : ℕ) : ℤ) = used.length := by
    rw [hused, List.length_append, Nat.add_sub_cancel]
  rw [hdigits'] at hy
  simp only [value, htaken, hfraction, hplaces, List.length_nil, and_true]
  by_cases hinteger : n.fraction = [] ∧ n.exponent = none
  · -- Only the negative zero and integers below 64 bits with a sign are rounded.
    obtain ⟨x, hx, -⟩ := exists_ofFraction_digits true hwhole
    simp only [hinteger, and_self, if_true, integerValue]
    split
    · exact ⟨_, fun _ => rfl⟩
    · split
      · rw [hx]
        exact ⟨_, fun _ => rfl⟩
      · exact ⟨_, fun _ => rfl⟩
  · simp only [if_neg hinteger]
    cases hexponent : n.exponent with
    | none =>
      rw [power_of_none hexponent] at hy
      refine ⟨.float y, fun stop => ?_⟩
      simp only [Nat.cast_zero, hy]
      rfl
    | some exponent =>
      obtain ⟨below, ds⟩ := exponent
      obtain ⟨e, left, he⟩ : ∃ e left, accumulate (Nat.pow 2 31) 0 ds = (e, left) := ⟨_, _, rfl⟩
      cases left with
      | nil =>
        obtain ⟨taken, htaken, hvalue, -⟩ := exists_accumulate (by decide) he
        rw [List.append_nil] at htaken
        rw [← htaken] at hvalue
        have hplace : (if below then (0 : ℤ) - used.length - e else 0 - used.length + e)
            = n.power - used.length := by
          rw [power_of_some hexponent, ← hvalue]
          cases below with
          | true =>
            simp only [if_true]
            ring
          | false =>
            simp only [Bool.false_eq_true, if_false]
            ring
        refine ⟨.float y, fun stop => ?_⟩
        simp only [he, Nat.cast_zero, hplace, hy]
        rfl
      | cons d left =>
        cases below with
        | true =>
          refine ⟨.float (Double.zero n.negative), fun stop => ?_⟩
          simp only [he, not_true, and_false, if_false]
        | false =>
          -- An exponent that is not too great is taken up as a whole.
          have hsmall : Nat.ofDigitChars 10 ds 0 < Nat.pow 2 31 := by
            rw [power_of_some hexponent, if_neg Bool.false_ne_true] at hpower
            exact_mod_cast hpower
          rw [accumulate_eq hsmall] at he
          cases he

end Value
end Numeral
end Json
end AliasCheck
