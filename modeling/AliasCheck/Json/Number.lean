import AliasCheck.Decimal.Shortest

/-!
# Numbers of JSON

A number is an integer if it is written as one and fits in 64 bits, with or without a sign, and a
double otherwise. Integers are written plainly; a double is written with the fewest digits that
read back, and always so that it can be told from an integer.
-/

namespace AliasCheck
namespace Json

/-- The value of a number in a JSON text. -/
inductive Number where
  | integer (value : Int)
  | float (value : Double)
  deriving DecidableEq, Repr

namespace Number

/-- Zeros, as digits of a number. -/
def zeros (n : Nat) : List Char := List.replicate n '0'

/-- The digits of a number without the zeros at the end. -/
def significant (digits : Nat) : List Char :=
  ((Nat.toDigits 10 digits).reverse.dropWhile (· = '0')).reverse

/-- Digits laid out around the decimal point, `point` of them before it. -/
def positional (digits : List Char) (point : Int) : List Char :=
  if point ≤ 0 then '0' :: '.' :: (zeros (-point).toNat ++ digits)
  else
    let whole := point.toNat
    if digits.length ≤ whole then digits ++ zeros (whole - digits.length) ++ ['.', '0']
    else digits.take whole ++ '.' :: digits.drop whole

/-- Digits laid out with one of them before the point and a signed power of ten. -/
def exponential (digits : List Char) (power : Int) : List Char :=
  let fraction := if digits.length ≤ 1 then [] else '.' :: digits.drop 1
  let sign := if power < 0 then '-' else '+'
  digits.take 1 ++ fraction ++ 'e' :: sign :: Nat.toDigits 10 power.natAbs

/-- A decimal is laid out around the point from the fifth place behind it to the sixteenth place in
front of it, and with a power of ten beyond. -/
def layout (d : Decimal) : List Char :=
  let digits := significant d.digits
  let point : Int := (Nat.toDigits 10 d.digits).length + d.exponent
  if -5 < point ∧ point ≤ 16 then positional digits point else exponential digits (point - 1)

/-- The text of a number. -/
def write : Number → List Char
  | integer n => if n < 0 then '-' :: Nat.toDigits 10 n.natAbs else Nat.toDigits 10 n.natAbs
  | float x =>
    let magnitude := if x.mantissa = 0 then ['0', '.', '0'] else layout x.shortest
    if x.negative then '-' :: magnitude else magnitude

end Number
end Json
end AliasCheck
