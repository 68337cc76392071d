import AliasCheck.Decimal.Double

/-!
# The shortest decimal that reads back

A double stands for all reals that round to it. Among the decimals of as few digits as possible
that lie in this interval, `Double.shortest` takes the one nearest to the double itself.
-/

namespace AliasCheck

/-- The number `digits * 10 ^ exponent`. -/
structure Decimal where
  digits : Nat
  exponent : Int
  deriving DecidableEq, Repr

namespace Double

/-- How many quarters of a unit in the last place of `x` make `digits * 10 ^ e`, as a fraction. -/
def inQuarters (x : Double) (digits : Nat) (e : Int) : Nat × Nat :=
  let q := x.exponent - 2
  (digits * Nat.pow 10 e.toNat * Nat.pow 2 (-q).toNat, Nat.pow 10 (-e).toNat * Nat.pow 2 q.toNat)

/-- `digits * 10 ^ e` rounds to the magnitude of `x`: it is no farther from it than half of the
distance to the next double on that side, or less far if the mantissa is odd. -/
def readsBack (x : Double) (digits : Nat) (e : Int) : Bool :=
  let (n, d) := x.inQuarters digits e
  let below := if x.mantissa = Nat.pow 2 52 ∧ minExponent < x.exponent then 1 else 2
  let low := (4 * x.mantissa - below) * d
  let high := (4 * x.mantissa + 2) * d
  if x.mantissa % 2 = 0 then low ≤ n ∧ n ≤ high else low < n ∧ n < high

/-- The least `k` from `k₀` on with the magnitude of `x` below `10 ^ k`; `tries` bounds the
search. -/
def scaleFrom (x : Double) : (tries : Nat) → (k₀ : Int) → Int
  | 0, k => k
  | tries + 1, k =>
    let (n, d) := x.fraction
    if n * Nat.pow 10 (-k).toNat < d * Nat.pow 10 k.toNat then k else scaleFrom x tries (k + 1)

/-- The number of digits that the magnitude of `x` has before the decimal point; negative if zeros
follow the point. -/
def scale (x : Double) : Int :=
  let bits : Int := (x.mantissa.log2 : Int) + x.exponent
  scaleFrom x 4 (bits * 30103 / 100000 - 1)

/-- The decimal nearest to `x` of those with `10 ^ e` as last place that read back as `x`; of two
that are equally near, the one with an even last digit. -/
def nearest? (x : Double) (e : Int) : Option Decimal :=
  let (n, d) := x.fraction
  let num := n * Nat.pow 10 (-e).toNat
  let den := d * Nat.pow 10 e.toNat
  let low := num / den
  let twice := 2 * num
  let middle := (2 * low + 1) * den
  let nearLow := twice < middle ∨ (twice = middle ∧ low % 2 = 0)
  let hitsLow := low ≠ 0 ∧ x.readsBack low e
  let hitsHigh := x.readsBack (low + 1) e
  if hitsLow ∧ (nearLow ∨ ¬ hitsHigh) then some ⟨low, e⟩
  else if hitsHigh then some ⟨low + 1, e⟩
  else none

/-- The first decimal that reads back, trying `tries` places from `10 ^ e` downwards; the exact
value if none does. -/
def search (x : Double) : (tries : Nat) → (e : Int) → Decimal
  | 0, _ =>
    ⟨x.mantissa * Nat.pow 2 x.exponent.toNat * Nat.pow 5 (-x.exponent).toNat, min 0 x.exponent⟩
  | tries + 1, e =>
    match x.nearest? e with
    | some d => d
    | none => search x tries (e - 1)

/-- The shortest decimal that reads back as the magnitude of `x`, which is not zero. -/
def shortest (x : Double) : Decimal := search x 18 (x.scale - 1)

end Double

end AliasCheck
