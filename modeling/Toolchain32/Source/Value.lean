import Toolchain32.Source.Error
import Toolchain32.Text.Numeral
import Toolchain32.Text.Split

/-!
# Literals, names and values

A literal is a hexadecimal number below 2^32 or a decimal between -2^31 and 2^31 - 1 without
superfluous zeros. `Literal.read?` recognises the two shapes at any size and `Literal.fits` is the
range. A value is a literal or the name of a symbol.
-/

namespace Toolchain32

/-- A number as the source spells it. -/
inductive Literal
  | hexadecimal (n : Nat)
  | decimal (i : Int)
  deriving DecidableEq, Repr

namespace Literal

/-- What follows the mark of a hexadecimal literal. -/
def hexDigits? (s : List Char) : Option (List Char) :=
  match Text.after? "0x" s with
  | some digits => some digits
  | none => Text.after? "0X" s

/-- Whether the digits of a decimal start with no superfluous zero. -/
def isCanonical (digits : List Char) : Bool :=
  digits == ['0'] || (digits.head? != some '0' && !digits.isEmpty)

def readDecimal? (s : List Char) : Option Literal :=
  match Text.after? "-" s with
  | some digits =>
    if isCanonical digits then (Text.natural? 10 digits).map fun n => decimal (-(n : Int)) else none
  | none => if isCanonical s then (Text.natural? 10 s).map fun n => decimal n else none

/-- The literal that a text spells, whatever its size. -/
def read? (s : List Char) : Option Literal :=
  match hexDigits? s with
  | some digits => (Text.natural? 16 digits).map hexadecimal
  | none => readDecimal? s

def value : Literal → Int
  | hexadecimal n => n
  | decimal i => i

def fits : Literal → Bool
  | hexadecimal n => n < 0x100000000
  | decimal i => -0x80000000 ≤ i && i < 0x80000000

end Literal

/-- The number that a text spells, if it has the shape of a literal; a literal out of range is an
error. -/
def readLiteral (s : List Char) : Except SyntaxError (Option Int) :=
  match Literal.read? s with
  | none => .ok none
  | some literal =>
    if literal.fits then .ok (some literal.value) else .error (.literalRange (String.ofList s))

/-- A letter or underscore, then letters, digits and underscores, all of ASCII. -/
def isSymbolName : List Char → Bool
  | [] => false
  | c :: rest => (c.isAlpha || c == '_') && rest.all fun c => c.isAlphanum || c == '_'

/-- The name of a section may also hold dots. -/
def isSectionName : List Char → Bool
  | [] => false
  | c :: rest =>
    (c.isAlpha || c == '_' || c == '.') && rest.all fun c => c.isAlphanum || c == '_' || c == '.'

inductive Value
  | literal (n : Int)
  | symbol (name : String)
  deriving DecidableEq, Repr

namespace Value

def read (s : List Char) : Except SyntaxError Value :=
  match readLiteral s with
  | .error e => .error e
  | .ok (some n) => .ok (literal n)
  | .ok none =>
    if isSymbolName s then .ok (symbol (String.ofList s))
    else .error (.malformedArgument (String.ofList s) .literalOrSymbol)

/-- The displacement field that holds the value: a literal from 0 to 0x7FF. -/
def inline? : Value → Option Int16
  | literal n => if 0 ≤ n ∧ n ≤ 0x7FF then some (Int16.ofInt n) else none
  | symbol _ => none

end Value

end Toolchain32
