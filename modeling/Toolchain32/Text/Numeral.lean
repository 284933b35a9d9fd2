/-!
# Numerals

`natural?` reads a numeral of a base without a sign, `word?` a 32-bit one with an optional plus
sign, and `exactWord?` a word of exactly eight hexadecimal digits. `hex` and `upperHex` write a
number with at least a given count of digits.
-/

namespace Toolchain32.Text

/-- The value of a digit of the given base, in either case. -/
def digit? (base : Nat) (c : Char) : Option Nat :=
  let n := c.toNat
  let value? : Option Nat :=
    if '0'.toNat ≤ n && n ≤ '9'.toNat then some (n - '0'.toNat)
    else if 'a'.toNat ≤ n && n ≤ 'z'.toNat then some (n - 'a'.toNat + 10)
    else if 'A'.toNat ≤ n && n ≤ 'Z'.toNat then some (n - 'A'.toNat + 10)
    else none
  value?.filter (· < base)

/-- The number read so far extended by one digit. -/
def pushDigit (base : Nat) (read : Option Nat) (c : Char) : Option Nat :=
  read.bind fun n => (digit? base c).map (n * base + ·)

/-- The value of a numeral of one or more digits. -/
def natural? (base : Nat) (s : List Char) : Option Nat :=
  if s.isEmpty then none else s.foldl (pushDigit base) (some 0)

/-- A number below 2^32, written with an optional plus sign and any count of digits. -/
def word? (base : Nat) (s : List Char) : Option UInt32 :=
  let digits := match s with
    | '+' :: rest => rest
    | _ => s
  (natural? base digits).bind fun n => if n < 0x100000000 then some (UInt32.ofNat n) else none

/-- A word spelled by exactly eight hexadecimal digits. -/
def exactWord? (s : List Char) : Option UInt32 :=
  if s.length = 8 then (natural? 16 s).map UInt32.ofNat else none

/-- At least `width` hexadecimal digits, in lower case. -/
def hex (width n : Nat) : String :=
  let digits := Nat.toDigits 16 n
  String.ofList (List.replicate (width - digits.length) '0' ++ digits)

/-- At least `width` hexadecimal digits, in upper case. -/
def upperHex (width n : Nat) : String :=
  let digits := (Nat.toDigits 16 n).map Char.toUpper
  String.ofList (List.replicate (width - digits.length) '0' ++ digits)

/-- A signed decimal that shows its sign also when it is not negative. -/
def signed (i : Int) : String :=
  if i < 0 then s!"-{i.natAbs}" else s!"+{i.natAbs}"

end Toolchain32.Text
