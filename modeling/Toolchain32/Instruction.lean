import Toolchain32.Register
import Toolchain32.Word

/-!
# Instructions

`Instruction` is one decoded instruction word. The pool forms read their operand from the word
that follows the instruction, and step the program counter over it.
-/

namespace Toolchain32

/-- The condition of a jump, on two registers. -/
inductive Condition
  | always | equal | notEqual | greater
  deriving DecidableEq, Repr

namespace Condition

def all : List Condition := [always, equal, notEqual, greater]

def mnemonic : Condition → String
  | always => "jmp"
  | equal => "beq"
  | notEqual => "bne"
  | greater => "bgt"

/-- Whether the jump is taken; the comparison is signed. -/
def holds : Condition → Word → Word → Bool
  | always, _, _ => true
  | equal, b, c => b == c
  | notEqual, b, c => b != c
  | greater, b, c => c.toInt32 < b.toInt32

end Condition

inductive Arith
  | add | sub | mul | div
  deriving DecidableEq, Repr

namespace Arith

def all : List Arith := [add, sub, mul, div]

def mnemonic : Arith → String
  | add => "add"
  | sub => "sub"
  | mul => "mul"
  | div => "div"

end Arith

inductive Logic
  | not | and | or | xor
  deriving DecidableEq, Repr

namespace Logic

def all : List Logic := [not, and, or, xor]

def mnemonic : Logic → String
  | not => "not"
  | and => "and"
  | or => "or"
  | xor => "xor"

/-- The bitwise result; the complement ignores its second operand. -/
def apply : Logic → Word → Word → Word
  | not, b, _ => ~~~b
  | and, b, c => b &&& c
  | or, b, c => b ||| c
  | xor, b, c => b ^^^ c

end Logic

inductive Shift
  | left | right
  deriving DecidableEq, Repr

namespace Shift

def all : List Shift := [left, right]

def mnemonic : Shift → String
  | left => "shl"
  | right => "shr"

/-- The shifted word; a distance of 32 or more shifts every bit out. -/
def apply (s : Shift) (b c : Word) : Word :=
  if c < 32 then
    match s with
    | left => b <<< c
    | right => b >>> c
  else 0

end Shift

/-- One instruction. In the comments `[x]` is the word at address `x`. -/
inductive Instruction
  | halt
  /-- Software interrupt. -/
  | interrupt
  /-- push pc; pc = a + b + d -/
  | call (a b : Register) (d : Int16)
  /-- t = [a + b + d]; pc += 4; push pc; pc = t -/
  | callPool (a b : Register) (d : Int16)
  /-- if b ? c then pc = a + d -/
  | jump (condition : Condition) (a b c : Register) (d : Int16)
  /-- t = [a + d]; pc += 4; if b ? c then pc = t -/
  | jumpPool (condition : Condition) (a b c : Register) (d : Int16)
  | exchange (b c : Register)
  /-- a = b op c -/
  | arith (op : Arith) (a b c : Register)
  /-- a = b op c -/
  | logic (op : Logic) (a b c : Register)
  /-- a = b op c -/
  | shift (op : Shift) (a b c : Register)
  /-- [a + b + d] = c -/
  | store (a b c : Register) (d : Int16)
  /-- a += d; [a] = c -/
  | push (a c : Register) (d : Int16)
  /-- [[a + b + d]] = c; pc += 4 -/
  | storePool (a b c : Register) (d : Int16)
  | readControl (a : Register) (control : ControlRegister)
  /-- a = b + d -/
  | move (a b : Register) (d : Int16)
  /-- a = [b + d] -/
  | load (a b : Register) (d : Int16)
  /-- t = [b + d]; pc += 4; a = t -/
  | loadPool (a b : Register) (d : Int16)
  /-- t = [b]; b += d; a = t -/
  | pop (a b : Register) (d : Int16)
  /-- A pop that retires together with the control pop in the next word. -/
  | popFused (a b : Register) (d : Int16)
  | writeControl (control : ControlRegister) (b : Register)
  /-- control = b + d -/
  | moveControl (control : ControlRegister) (b : Register) (d : Int16)
  /-- control = [b + c + d] -/
  | loadControl (control : ControlRegister) (b c : Register) (d : Int16)
  /-- t = [b]; b += d; control = t -/
  | popControl (control : ControlRegister) (b : Register) (d : Int16)
  deriving DecidableEq, Repr

namespace Instruction

/-- Whether the word after the instruction belongs to it. -/
def hasOperandWord : Instruction → Bool
  | callPool .. | jumpPool .. | storePool .. | loadPool .. => true
  | _ => false

end Instruction

end Toolchain32
