import AliasCheck.Json.Fault
import AliasCheck.Json.Number

/-!
# Reading numbers of JSON

A numeral is a number as it is written. Its value is not always the double nearest to it: as many
digits as fit in 64 bits make a whole number, which is then multiplied or divided by a power of ten,
and each of these steps rounds on its own.
-/

namespace AliasCheck
namespace Json

/-- A number as it is written. -/
structure Numeral where
  /-- A minus sign stands in front. -/
  negative : Bool
  /-- The digits before the point. -/
  whole : List Char
  /-- The digits behind the point; none if there is no point. -/
  fraction : List Char
  /-- The digits of the exponent, and whether it is negative. -/
  exponent : Option (Bool × List Char)
  deriving DecidableEq, Repr

namespace Numeral

/-! ## The value of a numeral -/

/-- Appends digits to a number as long as it stays below `limit`; the digits after are left. -/
def accumulate (limit value : Nat) : List Char → Nat × List Char
  | [] => (value, [])
  | d :: ds =>
    let next := 10 * value + (d.toNat - '0'.toNat)
    if next < limit then accumulate limit next ds else (value, d :: ds)

/-- The double nearest to a power of ten. -/
def powerOfTen (k : Nat) : Option Double := Double.ofFraction false (Nat.pow 10 k) 1

/-- `digits * 10 ^ e`, rounded at each step; none if that is too great. -/
def scale (negative : Bool) (digits : Nat) (e : Int) : Option Double := do
  let x ← Double.ofFraction negative digits 1
  let k := e.natAbs
  if digits = 0 then some x
  else if 0 ≤ e then
    if k ≤ 308 then x.mul (← powerOfTen k) else none
  else if k ≤ 308 then x.div (← powerOfTen k)
  else if k ≤ 616 then (← x.div (← powerOfTen 308)).div (← powerOfTen (k - 308))
  else some (Double.zero negative)

/-- The value of a numeral without point and exponent whose digits make `n`: an integer if it fits
in 64 bits. The negative zero is no integer. -/
def integerValue (negative : Bool) (n : Nat) : Option Number :=
  if ¬ negative then some (.integer n)
  else if n = 0 ∨ Nat.pow 2 63 < n then (Double.ofFraction true n 1).map .float
  else some (.integer (-n))

/-- The value of a numeral that ends at the offset `stop`. -/
def value (n : Numeral) (stop : Nat) : Except Fault Number :=
  let tooGreat : Except Fault Number := .error ⟨.numberTooGreat, stop⟩
  let (digits, dropped) := accumulate (Nat.pow 2 64) 0 n.whole
  if n.fraction = [] ∧ n.exponent = none ∧ dropped = [] then
    ((integerValue n.negative digits).map .ok).getD tooGreat
  else
    let (digits, unused) := accumulate (Nat.pow 2 64) digits n.fraction
    let places : Int := dropped.length - (n.fraction.length - unused.length : Nat)
    let scaled := fun e => ((scale n.negative digits e).map fun x => .ok (.float x)).getD tooGreat
    match n.exponent with
    | none => scaled places
    | some (below, exponent) =>
      match accumulate (Nat.pow 2 31) 0 exponent with
      | (e, []) => scaled (if below then places - e else places + e)
      | (_, _ :: left) =>
        if digits ≠ 0 ∧ ¬ below then .error ⟨.numberTooGreat, stop - left.length⟩
        else .ok (.float (Double.zero n.negative))

/-! ## The text of a numeral -/

/-- Something else stands, or the text ends, where a number needs a digit. `past` is the number of
bytes after which a reader notices the former. -/
def noDigit (c : Cursor) (past : Nat) : Breakdown :=
  match c.rest with
  | [] => ⟨⟨.endInValue, c.offset⟩, ⟨.badNumber, c.offset⟩⟩
  | _ => .same .badNumber (c.offset + past)

/-- Reads the digits before the point: a single zero, or digits that begin with another one. -/
def readWhole (c : Cursor) : Except Breakdown (List Char × Cursor) :=
  match c.rest.takeWhile Char.isDigit with
  | [] => .error (noDigit c 1)
  | '0' :: _ :: _ => .error (.same .badNumber (c.offset + 2))
  | digits => .ok (digits, c.skip digits.length)

/-- Reads a point and the digits behind it, if a point comes next. -/
def readFraction (c : Cursor) : Except Breakdown (List Char × Cursor) :=
  match c.rest with
  | '.' :: cs =>
    match cs.takeWhile Char.isDigit with
    | [] => .error (noDigit (c.skip 1) 1)
    | digits => .ok (digits, c.skip (digits.length + 1))
  | _ => .ok ([], c)

/-- Reads an exponent, if one comes next. -/
def readExponent (c : Cursor) : Except Breakdown (Option (Bool × List Char) × Cursor) :=
  match c.rest with
  | e :: cs =>
    if e = 'e' ∨ e = 'E' then
      let sign := cs.take 1 |>.filter fun s => s = '+' || s = '-'
      let c := c.skip (1 + sign.length)
      match c.rest.takeWhile Char.isDigit with
      | [] => .error (noDigit c 1)
      | digits => .ok (some (sign == ['-'], digits), c.skip digits.length)
    else .ok (none, c)
  | [] => .ok (none, c)

/-- Reads a numeral. -/
def read (c : Cursor) : Except Breakdown (Numeral × Cursor) := do
  let negative := c.rest.head? == some '-'
  let (whole, c) ← readWhole (if negative then c.skip 1 else c)
  let (fraction, c) ← readFraction c
  let (exponent, c) ← readExponent c
  .ok (⟨negative, whole, fraction, exponent⟩, c)

end Numeral
end Json
end AliasCheck
