import Toolchain32.Instruction
import Toolchain32.Text.Column
import Toolchain32.Text.Numeral
import Toolchain32.Text.Style

/-!
# Disassembly

An instruction as a coloured line: the mnemonic in a column of six, then its operands. An address
shows its base registers without the zero register, joined by plus signs, and then a displacement
other than zero.
-/

namespace Toolchain32

/-- A displacement other than zero with its sign, in hexadecimal. -/
def displacementText (d : Int16) : String :=
  let n := d.toInt
  if n = 0 then ""
  else if n < 0 then "-0x" ++ Text.upperHex 1 n.natAbs
  else "+0x" ++ Text.upperHex 1 n.natAbs

/-- The address formed by base registers and a displacement. -/
def addressText (bases : List Register) (d : Int16) : String :=
  let shown := (bases.filter (· ≠ Register.zero)).map Register.name
  let n := d.toInt
  if shown.isEmpty then
    if n < 0 then "-0x" ++ Text.upperHex 1 n.natAbs else "0x" ++ Text.upperHex 1 n.natAbs
  else String.intercalate "+" shown ++ displacementText d

namespace Instruction

def commaSeparated (parts : List String) : String := String.intercalate ", " parts

def bracketed (s : String) : String := "[" ++ s ++ "]"

/-- `target <- left, right` -/
def assignment (target : Register) (sources : List Register) : String :=
  target.name ++ " <- " ++ commaSeparated (sources.map Register.name)

/-- The operands of a jump to `target`: an unconditional one compares nothing. -/
def jumpOperands (condition : Condition) (b c : Register) (target : String) : String :=
  match condition with
  | .always => target
  | _ => commaSeparated [b.name, c.name, target]

/-- The mnemonic of an instruction and its operands, if it has any. -/
def parts : Instruction → String × Option String
  | halt => ("halt", none)
  | interrupt => ("int", none)
  | call a b d => ("call", some (addressText [a, b] d))
  | callPool a b d => ("call", some (bracketed (addressText [a, b] d)))
  | jump k a b c d => (k.mnemonic, some (jumpOperands k b c (addressText [a] d)))
  | jumpPool k a b c d => (k.mnemonic, some (jumpOperands k b c (bracketed (addressText [a] d))))
  | exchange b c => ("xchg", some (commaSeparated [b.name, c.name]))
  | arith op a b c => (op.mnemonic, some (assignment a [b, c]))
  | logic .not a b _ => ("not", some (assignment a [b]))
  | logic op a b c => (op.mnemonic, some (assignment a [b, c]))
  | shift op a b c => (op.mnemonic, some (assignment a [b, c]))
  | store a b c d => ("st", some (commaSeparated [c.name, bracketed (addressText [a, b] d)]))
  | push a c d =>
    ("st", some (commaSeparated [c.name, bracketed (a.name ++ Text.signed d.toInt) ++ "!"]))
  | storePool a b c d =>
    ("st", some (commaSeparated [c.name, bracketed (bracketed (addressText [a, b] d))]))
  | readControl a s => ("csrrd", some (commaSeparated [s.name, a.name]))
  | move a b d => ("ld", some (commaSeparated [addressText [b] d, a.name]))
  | load a b d | loadPool a b d =>
    ("ld", some (commaSeparated [bracketed (addressText [b] d), a.name]))
  | pop a b d | popFused a b d =>
    ("ld", some (commaSeparated [bracketed b.name ++ Text.signed d.toInt ++ "!", a.name]))
  | writeControl s b => ("csrwr", some (commaSeparated [b.name, s.name]))
  | moveControl s b d => ("csrwr", some (commaSeparated [addressText [b] d, s.name]))
  | loadControl s b c d =>
    ("csrwr", some (commaSeparated [bracketed (addressText [b, c] d), s.name]))
  | popControl s b d =>
    ("csrwr", some (commaSeparated [bracketed b.name ++ Text.signed d.toInt ++ "!", s.name]))

/-- The coloured line; the operands' colour replaces the mnemonic's. -/
def disassemble (i : Instruction) : String :=
  let (mnemonic, operands?) := i.parts
  let operands := match operands? with
    | some operands => Text.Color.blue.start ++ operands
    | none => ""
  Text.Color.red.start ++ Text.padRight 6 mnemonic ++ operands ++ Text.colorEnd

end Instruction

end Toolchain32
