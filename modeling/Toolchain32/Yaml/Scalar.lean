import Toolchain32.Number.Binary

/-!
# Plain scalars

`Scalar.ofPlain` gives a plain scalar its type by the core rules of YAML 1.2: null, Boolean,
integer in four bases, number, and text for everything else. Digits with a leading zero are text.
-/

namespace Toolchain32.Yaml

inductive Scalar
  | null
  | bool (b : Bool)
  | integer (i : Int)
  | real (isNegative : Bool) (magnitude : Binary)
  | infinity (isNegative : Bool)
  | notANumber
  | text (s : String)
  deriving DecidableEq, Repr

namespace Scalar

def isNull (s : String) : Bool := ["", "~", "null", "Null", "NULL"].contains s

def bool? (s : String) : Option Bool :=
  if ["true", "True", "TRUE"].contains s then some true
  else if ["false", "False", "FALSE"].contains s then some false
  else none

/-- Digits after a leading zero, with or without a sign. -/
def hasLeadingZero (s : List Char) : Bool :=
  match (Decimal.splitSign s).2 with
  | '0' :: c :: rest => (c :: rest).all Char.isDigit
  | _ => false

/-- The number of a base after the mark of the base. -/
def based? (s : List Char) : Option Nat :=
  match s with
  | '0' :: 'x' :: digits => Text.natural? 16 digits
  | '0' :: 'o' :: digits => Text.natural? 8 digits
  | '0' :: 'b' :: digits => Text.natural? 2 digits
  | _ => none

/-- An unsigned integer without a sign. -/
def magnitude? (s : List Char) : Option Nat :=
  match based? s with
  | some n => some n
  | none => if hasLeadingZero s then none else Text.natural? 10 s

/-- The integers of 128 bits, with or without a sign bit; larger ones are numbers. -/
def integer? (s : List Char) : Option Int :=
  let (isNegative, digits) := Decimal.splitSign s
  match magnitude? digits with
  | none => none
  | some n =>
    if isNegative then if n ≤ 0x80000000000000000000000000000000 then some (-(n : Int)) else none
    else if n < 0x100000000000000000000000000000000 then some n else none

/-- The numbers that are spelled by a word. -/
def special? (s : String) : Option Scalar :=
  if [".inf", ".Inf", ".INF", "+.inf", "+.Inf", "+.INF"].contains s then some (infinity false)
  else if ["-.inf", "-.Inf", "-.INF"].contains s then some (infinity true)
  else if [".nan", ".NaN", ".NAN"].contains s then some notANumber
  else none

/-- A number in range, by its spelling as a decimal fraction. -/
def real? (s : List Char) : Option Scalar := do
  let d ← Decimal.read? s
  let b ← Binary.ofDecimal? d
  return real d.isNegative b

def ofPlain (s : String) : Scalar :=
  let chars := s.toList
  if isNull s then null
  else match bool? s with
    | some b => bool b
    | none =>
      match integer? chars with
      | some i => integer i
      | none =>
        if hasLeadingZero chars then text s
        else ((special? s).orElse fun _ => real? chars).getD (text s)

/-- The spelling of a number. -/
def numberText? : Scalar → Option String
  | integer i => some (toString i)
  | real isNegative b => some (b.print isNegative)
  | infinity isNegative => some (if isNegative then "-.inf" else ".inf")
  | notANumber => some ".nan"
  | null | bool _ | text _ => none

end Scalar

end Toolchain32.Yaml
