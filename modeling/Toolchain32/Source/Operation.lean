import Toolchain32.Instruction
import Toolchain32.Source.Value
import Toolchain32.Text.Blank

/-!
# Operations of the source language

An operation is a mnemonic with its operands. `Form` says which operands a mnemonic takes and what
it makes of them, and `forms` lists every mnemonic.
-/

namespace Toolchain32

/-- Where an operation stores to, or one of the places it loads from. -/
inductive Place
  /-- The word at the address. -/
  | memory (address : Value)
  | register (r : Register)
  /-- The word at a register's address plus a displacement. -/
  | indirect (base : Register) (d : Int16)
  deriving DecidableEq, Repr

/-- What a load takes its value from. -/
inductive Operand
  | immediate (value : Value)
  | place (p : Place)
  deriving DecidableEq, Repr

inductive Operation
  | halt
  | interrupt
  | interruptReturn
  | subroutineReturn
  | call (target : Value)
  | jump (target : Value)
  | branch (condition : Condition) (b c : Register) (target : Value)
  | push (r : Register)
  | pop (r : Register)
  | exchange (source target : Register)
  /-- target = target op source -/
  | arith (op : Arith) (source target : Register)
  /-- target = target op source -/
  | logic (op : Logic) (source target : Register)
  | complement (r : Register)
  /-- target = target op source -/
  | shift (op : Shift) (source target : Register)
  | readControl (control : ControlRegister) (target : Register)
  | writeControl (source : Register) (control : ControlRegister)
  | load (source : Operand) (target : Register)
  | store (source : Register) (target : Place)
  deriving DecidableEq, Repr

/-- A general register operand, which is written with a percent sign. -/
def readRegister (s : List Char) : Except SyntaxError Register :=
  let unknown := SyntaxError.malformedArgument (String.ofList s) .register
  if s.head? = some '%' then
    match Register.read? s with
    | some r => .ok r
    | none =>
      if (ControlRegister.read? s).isSome then .error (.misplacedControlRegister (String.ofList s))
      else .error unknown
  else .error unknown

def readControlRegister (s : List Char) : Except SyntaxError ControlRegister :=
  match ControlRegister.read? s with
  | some r => .ok r
  | none => .error (.malformedArgument (String.ofList s) .controlRegister)

/-- A displacement, which has to be a literal of twelve bits. -/
def readDisplacement (s : List Char) : Except SyntaxError Int16 := do
  match ← Value.read s with
  | .literal n =>
    if -2048 ≤ n ∧ n ≤ 2047 then return Int16.ofInt n else throw (.displacementRange n)
  | .symbol name => throw (.symbolicDisplacement name)

/-- What stands between the brackets of an indirect operand: a base register and, after a plus
sign, a displacement. -/
def readIndirect (inner : List Char) : Except SyntaxError Place :=
  match Text.cutAt? (· == '+') inner with
  | none => (readRegister (Text.trim inner)).map fun base => .indirect base 0
  | some (base, d) => do
    let base ← readRegister (Text.trim base)
    let d ← readDisplacement (Text.trim d)
    return .indirect base d

/-- What stands between brackets. -/
def bracketed? (s : List Char) : Option (List Char) :=
  match Text.after? "[" s with
  | some inner => if inner.getLast? = some ']' then some inner.dropLast else none
  | none => none

def Place.read (s : List Char) : Except SyntaxError Place :=
  if s.head? = some '%' then (readRegister s).map .register
  else match bracketed? s with
    | some inner => readIndirect inner
    | none => (Value.read s).map .memory

def Operand.read (s : List Char) : Except SyntaxError Operand :=
  match Text.after? "$" s with
  | some value => (Value.read (Text.trim value)).map .immediate
  | none => (Place.read s).map .place

/-- The operands of a mnemonic and what it makes of them. -/
inductive Form
  | bare (operation : Operation)
  | value (make : Value → Operation)
  | register (make : Register → Operation)
  | registers (make : Register → Register → Operation)
  | branch (condition : Condition)
  | readControl
  | writeControl
  | load
  | store

namespace Form

/-- How many operands the form takes. -/
def arity : Form → Nat
  | bare _ => 0
  | value _ | register _ => 1
  | branch _ => 3
  | registers _ | readControl | writeControl | load | store => 2

end Form

/-- Every mnemonic with its form. -/
def forms : List (String × Form) :=
  [("halt", .bare .halt), ("int", .bare .interrupt), ("iret", .bare .interruptReturn),
    ("ret", .bare .subroutineReturn), ("call", .value .call), ("jmp", .value .jump),
    ("beq", .branch .equal), ("bne", .branch .notEqual), ("bgt", .branch .greater),
    ("push", .register .push), ("pop", .register .pop), ("xchg", .registers .exchange),
    ("add", .registers (.arith .add)), ("sub", .registers (.arith .sub)),
    ("mul", .registers (.arith .mul)), ("div", .registers (.arith .div)),
    ("not", .register .complement), ("and", .registers (.logic .and)),
    ("or", .registers (.logic .or)), ("xor", .registers (.logic .xor)),
    ("shl", .registers (.shift .left)), ("shr", .registers (.shift .right)),
    ("csrrd", .readControl), ("csrwr", .writeControl), ("ld", .load), ("st", .store)]

/-- The `i`-th argument, which must be there. -/
def argument (arguments : List (List Char)) (i : Nat) : Except SyntaxError (List Char) :=
  match arguments[i]? with
  | some s => .ok s
  | none => .error .missingArgument

/-- The operation that a form makes of its arguments, which are read from left to right. -/
def Form.read (form : Form) (arguments : List (List Char)) : Except SyntaxError Operation :=
  match form with
  | bare operation => return operation
  | value make => return make (← Value.read (← argument arguments 0))
  | register make => return make (← readRegister (← argument arguments 0))
  | registers make => do
    let first ← readRegister (← argument arguments 0)
    let second ← readRegister (← argument arguments 1)
    return make first second
  | branch condition => do
    let b ← readRegister (← argument arguments 0)
    let c ← readRegister (← argument arguments 1)
    let target ← Value.read (← argument arguments 2)
    return .branch condition b c target
  | readControl => do
    let control ← readControlRegister (← argument arguments 0)
    let target ← readRegister (← argument arguments 1)
    return .readControl control target
  | writeControl => do
    let source ← readRegister (← argument arguments 0)
    let control ← readControlRegister (← argument arguments 1)
    return .writeControl source control
  | load => do
    let source ← Operand.read (← argument arguments 0)
    let target ← readRegister (← argument arguments 1)
    return .load source target
  | store => do
    let source ← readRegister (← argument arguments 0)
    let written ← argument arguments 1
    match ← Operand.read written with
    | .place target => return .store source target
    | .immediate _ => throw (.storeIntoImmediate (String.ofList written))

/-- The operation of a mnemonic and its arguments. Too many arguments are an error before anything
else is; an unknown mnemonic is taken for one with two operands in that. -/
def Operation.read (mnemonic : String) (arguments : List (List Char)) :
    Except SyntaxError Operation :=
  match forms.lookup mnemonic with
  | none =>
    if 2 < arguments.length then .error .extraArgument else .error (.unknownOperation mnemonic)
  | some form =>
    if form.arity < arguments.length then .error .extraArgument else form.read arguments

end Toolchain32
