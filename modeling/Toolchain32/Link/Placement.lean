import Toolchain32.Link.Error

/-!
# Placements

A placement asks for a section at an address, as `section@address`. The address is one to eight
hexadecimal digits, after an optional `0x`.
-/

namespace Toolchain32

structure Placement where
  sectionName : String
  address : Word
  deriving DecidableEq, Repr

namespace Placement

/-- The digits of an address, without the mark that may stand before them. -/
def addressDigits (s : List Char) : List Char :=
  match Text.after? "0x" s with
  | some digits => digits
  | none => (Text.after? "0X" s).getD s

/-- An address of at most eight characters, one of which may be a plus sign in front. -/
def readAddress? (s : List Char) : Option Word :=
  let digits := addressDigits s
  if digits.length ≤ 8 then Text.word? 16 digits else none

def read? (s : List Char) : Option Placement :=
  match Text.cutAt? (· == '@') s with
  | none => none
  | some (name, address) =>
    if name.isEmpty then none
    else (readAddress? (Text.trim address)).map fun address => ⟨String.ofList name, address⟩

def read (text : String) : Except LinkError Placement :=
  match read? text.toList with
  | some p => .ok p
  | none => .error (.invalidPlacement text)

end Placement

end Toolchain32
