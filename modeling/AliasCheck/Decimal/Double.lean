/-!
# Double-precision numbers

The finite numbers that fit a double-precision format: a sign and a magnitude `mantissa * 2 ^
exponent` with at most 53 bits in the mantissa. All arithmetic is done on exact quotients of natural
numbers, which are rounded to the nearest double once, ties to the even mantissa.
-/

namespace AliasCheck

/-- A finite double-precision number. -/
structure Double where
  /-- The number is below zero, or it is the negative zero. -/
  negative : Bool
  /-- The significant bits; the top one of 53 is set unless the exponent is the least one. -/
  mantissa : Nat
  /-- The power of two that the mantissa is to be multiplied by. -/
  exponent : Int
  deriving DecidableEq, Repr

namespace Double

/-- The least exponent. -/
def minExponent : Int := -1074

/-- The greatest exponent. -/
def maxExponent : Int := 971

def zero (negative : Bool) : Double := ⟨negative, 0, minExponent⟩

/-- The quotient of `n` and `d`, rounded to the nearest natural number, ties to the even one. -/
def roundDiv (n d : Nat) : Nat :=
  let q := n / d
  let r := n % d
  if d < 2 * r ∨ (2 * r = d ∧ q % 2 = 1) then q + 1 else q

/-- The fraction that is `num / den` divided by `2 ^ e`. -/
def scaled (num den : Nat) (e : Int) : Nat × Nat :=
  (num * Nat.pow 2 (-e).toNat, den * Nat.pow 2 e.toNat)

/-- The exponent at which `num / den` has 53 bits before the binary point, or the least one. -/
def exponentOf (num den : Nat) : Int :=
  let guess : Int := (num.log2 : Int) - den.log2 - 53
  let (n, d) := scaled num den guess
  max minExponent (if n / d < Nat.pow 2 53 then guess else guess + 1)

/-- The double nearest to the fraction `num / den`, if that is not too great. -/
def ofFraction (negative : Bool) (num den : Nat) : Option Double :=
  if num = 0 then some (zero negative)
  else
    let e := exponentOf num den
    let (n, d) := scaled num den e
    let m := roundDiv n d
    let rounded : Double := if m = Nat.pow 2 53 then ⟨negative, Nat.pow 2 52, e + 1⟩
      else ⟨negative, m, e⟩
    if maxExponent < rounded.exponent then none else some rounded

/-- The magnitude of a double as a fraction. -/
def fraction (x : Double) : Nat × Nat :=
  (x.mantissa * Nat.pow 2 x.exponent.toNat, Nat.pow 2 (-x.exponent).toNat)

/-- The double nearest to the product of two magnitudes, if that is not too great. -/
def mul (x y : Double) : Option Double :=
  ofFraction x.negative (x.fraction.1 * y.fraction.1) (x.fraction.2 * y.fraction.2)

/-- The double nearest to the quotient of two magnitudes, if that is not too great. -/
def div (x y : Double) : Option Double :=
  ofFraction x.negative (x.fraction.1 * y.fraction.2) (x.fraction.2 * y.fraction.1)

end Double

end AliasCheck
