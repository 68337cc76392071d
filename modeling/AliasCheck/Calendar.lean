import AliasCheck.Text.Unicode.Ranges

/-!
# Dates as text

Two ways of writing a date count. A timestamp gives the day, the time and the offset from universal
time, each part with a fixed number of digits. A plain date gives the day alone and is read more
freely: numbers may be short, may have blanks in front, and the year may have a sign.
-/

namespace AliasCheck
namespace Calendar

/-! ## Days -/

/-- A year with 366 days. -/
def isLeapYear (year : Int) : Bool := year % 4 = 0 && (year % 100 ≠ 0 || year % 400 = 0)

/-- The number of days of a month. -/
def daysIn (year : Int) (month : Nat) : Nat :=
  match month with
  | 2 => if isLeapYear year then 29 else 28
  | 4 | 6 | 9 | 11 => 30
  | _ => 31

/-- The day exists. -/
def isDay (year : Int) (month day : Nat) : Bool :=
  1 ≤ month && month ≤ 12 && 1 ≤ day && day ≤ daysIn year month

/-! ## Numbers -/

/-- The number that decimal digits denote. -/
def ofDigits (digits : List Char) : Nat :=
  digits.foldl (fun n d => 10 * n + (d.toNat - '0'.toNat)) 0

/-- Reads exactly `width` digits. -/
def fixed (width : Nat) (cs : List Char) : Option (Nat × List Char) :=
  let digits := cs.take width
  if digits.length = width ∧ digits.all Char.isDigit then some (ofDigits digits, cs.drop width)
  else none

/-- Reads at least one and at most `width` digits. -/
def upTo (width : Nat) (cs : List Char) : Option (Nat × List Char) :=
  let digits := (cs.takeWhile Char.isDigit).take width
  if digits = [] then none else some (ofDigits digits, cs.drop digits.length)

/-- Reads one character that satisfies a condition. -/
def one (condition : Char → Bool) : List Char → Option (List Char)
  | [] => none
  | c :: cs => if condition c then some cs else none

/-! ## Timestamps -/

/-- Reads the fraction of a second, if there is one. -/
def secondFraction (cs : List Char) : Option (List Char) :=
  match cs with
  | '.' :: rest =>
    let digits := rest.takeWhile Char.isDigit
    if digits = [] then none else some (rest.drop digits.length)
  | _ => some cs

/-- The text is an offset from universal time, or the letter that stands for none. -/
def isOffset (cs : List Char) : Bool :=
  match cs with
  | ['Z'] | ['z'] => true
  | sign :: cs =>
    (sign = '+' || sign = '-' || sign = '\u2212') &&
      ((do
        let (hour, cs) ← fixed 2 cs
        let cs ← one (· = ':') cs
        let (minute, cs) ← fixed 2 cs
        some (hour ≤ 23 && minute ≤ 59 && cs.isEmpty)).getD false)
  | [] => false

/-- The text is a timestamp. The sixtieth second of any minute may be one that has been put in. -/
def isTimestamp (cs : List Char) : Bool :=
  (do
    let (year, cs) ← fixed 4 cs
    let cs ← one (· = '-') cs
    let (month, cs) ← fixed 2 cs
    let cs ← one (· = '-') cs
    let (day, cs) ← fixed 2 cs
    let cs ← one (fun c => c = 'T' || c = 't' || c = ' ') cs
    let (hour, cs) ← fixed 2 cs
    let cs ← one (· = ':') cs
    let (minute, cs) ← fixed 2 cs
    let cs ← one (· = ':') cs
    let (second, cs) ← fixed 2 cs
    let cs ← secondFraction cs
    some (isDay year month day && hour ≤ 23 && minute ≤ 59 && second ≤ 60 && isOffset cs)).getD
      false

/-! ## Plain dates -/

/-- The least year of a plain date. -/
def minYear : Int := -262143

/-- The greatest year of a plain date. -/
def maxYear : Int := 262142

/-- Reads a year: up to four digits, or any number of them behind a sign. -/
def year (cs : List Char) : Option (Int × List Char) :=
  match cs.dropWhile Unicode.isSpace with
  | '-' :: cs => (upTo cs.length cs).map fun (n, cs) => (-n, cs)
  | '+' :: cs => (upTo cs.length cs).map fun (n, cs) => (n, cs)
  | cs => (upTo 4 cs).map fun (n, cs) => (n, cs)

/-- Reads the number of a month or a day. -/
def part (cs : List Char) : Option (Nat × List Char) := upTo 2 (cs.dropWhile Unicode.isSpace)

/-- The text is a plain date. -/
def isPlainDate (cs : List Char) : Bool :=
  (do
    let (y, cs) ← year cs
    let cs ← one (· = '-') cs
    let (month, cs) ← part cs
    let cs ← one (· = '-') cs
    let (day, cs) ← part cs
    some (minYear ≤ y && y ≤ maxYear && isDay y month day && cs.isEmpty)).getD false

/-- The text is a date. -/
def isDate (text : String) : Bool := isTimestamp text.toList || isPlainDate text.toList

end Calendar
end AliasCheck
