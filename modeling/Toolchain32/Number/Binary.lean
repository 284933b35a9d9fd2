import Toolchain32.Number.Decimal

/-!
# Binary fractions of 53 bits

`Binary.ofDecimal` rounds a decimal fraction to the nearest number of 53 significant bits with a
bounded exponent, a tie to the even one. `Binary.shortest` gives the fewest decimal digits that
round to a number, the nearest of those. `Binary.print` writes them in the shorter of two forms, and
`Binary.printPositional` without an exponent.
-/

namespace Toolchain32

/-- `significand * 2 ^ exponent` for a significand below 2^53. -/
structure Binary where
  significand : Nat
  exponent : Int
  deriving DecidableEq, Repr

namespace Binary

/-- The least and the greatest exponent. -/
def leastExponent : Int := -1074

def greatestExponent : Int := 971

/-- `n * base ^ e` as a numerator and a denominator. -/
def scaled (n base : Nat) (e : Int) : Nat × Nat :=
  if 0 ≤ e then (n * Nat.pow base e.toNat, 1) else (n, Nat.pow base (-e).toNat)

/-- The integer nearest to a quotient, a tie to the even one. -/
def roundedQuotient (num den : Nat) : Nat :=
  let q := num / den
  let r := num % den
  if 2 * r < den then q else if den < 2 * r then q + 1 else q + q % 2

/-- A quotient divided by a power of two, rounded. -/
def roundedAt (num den : Nat) (e : Int) : Nat :=
  if 0 ≤ e then roundedQuotient num (den <<< e.toNat)
  else roundedQuotient (num <<< (-e).toNat) den

/-- The exponent at which the quotient has 53 bits before the point. -/
def exponentOf (num den : Nat) : Int :=
  let guess : Int := (Nat.log2 num : Int) - Nat.log2 den - 52
  let (n, d) := if 0 ≤ guess then (num, den <<< guess.toNat) else (num <<< (-guess).toNat, den)
  max leastExponent (if n / d < 0x10000000000000 then guess - 1 else guess)

/-- The number nearest to a positive quotient; none if it is too large. -/
def ofQuotient? (num den : Nat) : Option Binary :=
  let e := exponentOf num den
  let m := roundedAt num den e
  let b : Binary := if m = 0x20000000000000 then ⟨0x10000000000000, e + 1⟩ else ⟨m, e⟩
  if b.exponent ≤ greatestExponent then some b else none

/-- The number nearest to a decimal fraction without its sign. Fractions that are out of range by
far are told by their count of digits. -/
def ofDecimal? (d : Decimal) : Option Binary :=
  let magnitude : Int := (Nat.toDigits 10 d.digits).length + d.exponent
  if d.digits = 0 || magnitude < -400 then some ⟨0, 0⟩
  else if 400 < magnitude then none
  else
    let (num, den) := scaled d.digits 10 d.exponent
    ofQuotient? num den

/-- A positive number `digits * 10 ^ exponent`, in lowest digits. -/
structure Digits where
  digits : Nat
  exponent : Int
  deriving DecidableEq, Repr

/-- The ends of the interval of numbers that round to a number, over one denominator with it:
low end, number, high end, denominator. -/
def neighbourhood (b : Binary) : Nat × Nat × Nat × Nat :=
  let (num, den) := scaled b.significand 2 b.exponent
  let (step, _) := scaled 1 2 b.exponent
  let isLeast := b.significand = 0x10000000000000 && leastExponent < b.exponent
  let lowStep := if isLeast then step else 2 * step
  (4 * num - lowStep, 4 * num, 4 * num + 2 * step, 4 * den)

/-- An exponent of ten at or above the leading digit of a quotient, from its length in bits. -/
def leadingBound (num den : Nat) : Int :=
  ((Nat.log2 num : Int) - Nat.log2 den + 1) * 30103 / 100000 + 1

/-- The best decimal of the given exponent for a number, if one of its two neighbours on that grid
rounds to the number. -/
def onGrid? (b : Binary) (e : Int) : Option Nat :=
  let (low, num, high, den) := b.neighbourhood
  let (scale, unit) := scaled 1 10 e
  let isInside (k : Nat) : Bool :=
    let v := k * scale * den
    if b.significand % 2 = 0 then low * unit ≤ v && v ≤ high * unit
    else low * unit < v && v < high * unit
  let below := num * unit / (den * scale)
  let nearest := roundedQuotient (num * unit) (den * scale)
  let other := if nearest = below then below + 1 else below
  if isInside nearest then some nearest else if isInside other then some other else none

/-- The first grid with a hit, from `e` downwards. -/
def searchGrids (b : Binary) : Nat → Int → Digits
  | 0, e => ⟨(b.onGrid? e).getD 0, e⟩
  | n + 1, e =>
    match b.onGrid? e with
    | some k => ⟨k, e⟩
    | none => searchGrids b n (e - 1)

/-- Trailing zeros go into the exponent. -/
def Digits.trimmed : Nat → Digits → Digits
  | 0, d => d
  | n + 1, d => if d.digits % 10 = 0 then trimmed n ⟨d.digits / 10, d.exponent + 1⟩ else d

/-- The fewest digits that round to a number other than zero. -/
def shortest (b : Binary) : Digits :=
  let (_, num, _, den) := b.neighbourhood
  (searchGrids b 22 (leadingBound num den)).trimmed 22

/-- Digits with a point and all the zeros that this takes. A whole number keeps one decimal. -/
def Digits.positional (d : Digits) : String :=
  let text := Nat.toDigits 10 d.digits
  let point : Int := text.length + d.exponent
  let zeros (n : Int) : List Char := List.replicate n.toNat '0'
  if 0 ≤ d.exponent then String.ofList (text ++ zeros d.exponent) ++ ".0"
  else if 0 < point then String.ofList (text.take point.toNat ++ '.' :: text.drop point.toNat)
  else String.ofList ('0' :: '.' :: zeros (-point) ++ text)

/-- Positional while the point lies within sixteen digits before or four zeros after the front, and
with an exponent beyond that. -/
def Digits.print (d : Digits) : String :=
  let text := Nat.toDigits 10 d.digits
  let point : Int := text.length + d.exponent
  let exponent := s!"e{point - 1}"
  if -5 < point && point ≤ 16 then d.positional
  else if text.length = 1 then String.ofList text ++ exponent
  else String.ofList (text.take 1 ++ '.' :: text.drop 1) ++ exponent

def signed (isNegative : Bool) (magnitude : String) : String :=
  if isNegative then "-" ++ magnitude else magnitude

def print (isNegative : Bool) (b : Binary) : String :=
  signed isNegative (if b.significand = 0 then "0.0" else b.shortest.print)

def printPositional (isNegative : Bool) (b : Binary) : String :=
  signed isNegative (if b.significand = 0 then "0.0" else b.shortest.positional)

end Binary

end Toolchain32
