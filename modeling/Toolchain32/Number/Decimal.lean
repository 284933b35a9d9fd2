import Toolchain32.Text.Numeral
import Toolchain32.Text.Split

/-!
# Decimal fractions

A decimal fraction is an integer times a power of ten. `Decimal.read?` reads one with an optional
sign, an optional point and an optional exponent; at least one digit stands before the exponent.
-/

namespace Toolchain32

/-- `digits * 10 ^ exponent`, with a sign. -/
structure Decimal where
  isNegative : Bool
  digits : Nat
  exponent : Int
  deriving DecidableEq, Repr

namespace Decimal

/-- The sign in front of a number and what follows it. -/
def splitSign : List Char → Bool × List Char
  | '-' :: rest => (true, rest)
  | '+' :: rest => (false, rest)
  | s => (false, s)

def isDigit (c : Char) : Bool := c.isDigit

/-- An exponent after its letter: an optional sign and one or more digits. -/
def readExponent? (s : List Char) : Option Int :=
  let (isNegative, digits) := splitSign s
  (Text.natural? 10 digits).map fun n => if isNegative then -(n : Int) else n

/-- The number of the digits on both sides of a point, of which there is at least one. -/
def readMantissa? (whole part : List Char) : Option (Nat × Int) :=
  if part.all isDigit then
    (Text.natural? 10 (whole ++ part)).map fun n => (n, -(part.length : Int))
  else none

/-- A mantissa without a sign: digits, and more digits after a point. -/
def splitMantissa (s : List Char) : Option (Nat × Int) :=
  let whole := s.takeWhile isDigit
  match s.dropWhile isDigit with
  | [] => readMantissa? whole []
  | '.' :: part => readMantissa? whole part
  | _ => none

def read? (s : List Char) : Option Decimal :=
  let (isNegative, rest) := splitSign s
  match Text.cutAt? (fun c => c == 'e' || c == 'E') rest with
  | none => (splitMantissa rest).map fun (n, e) => ⟨isNegative, n, e⟩
  | some (mantissa, exponent) => do
    let (n, e) ← splitMantissa mantissa
    let shift ← readExponent? exponent
    return ⟨isNegative, n, e + shift⟩

end Decimal

end Toolchain32
