import Toolchain32.Machine

/-!
# Steps

`Machine.step` fetches, decodes and executes one instruction. A step that traps keeps what it did
before the trap: the program counter has moved on, and a fused pop has already popped its stack.
-/

namespace Toolchain32

/-- Why a step could not be completed, and where. -/
inductive Trap
  /-- The word at the address cannot be executed. -/
  | invalidInstruction (address word : Word) (cause : DecodeError)
  | divisionByZero (address : Word)
  deriving DecidableEq, Repr

namespace Trap

def message : Trap → String
  | invalidInstruction address word _ =>
    "Invalid instruction " ++ Text.upperHex 8 word.toNat ++ " at 0x" ++
      Text.upperHex 8 address.toNat
  | divisionByZero address => "Division by zero at 0x" ++ Text.upperHex 8 address.toNat

def kind (_ : Trap) : ErrorKind := .runtime

/-- The decoding error behind a trap. -/
def cause? : Trap → Option DecodeError
  | invalidInstruction _ _ cause => some cause
  | divisionByZero _ => none

end Trap

/-- A completed instruction: its address and its word. -/
structure Retired where
  address : Word
  word : Word
  deriving DecidableEq, Repr

namespace Arith

/-- The result modulo 2^32; division is signed and truncates, and has none for a zero divisor. -/
def result? : Arith → Word → Word → Option Word
  | add, b, c => some (b + c)
  | sub, b, c => some (b - c)
  | mul, b, c => some (b * c)
  | div, b, c => if c = 0 then none else some (b.toInt32 / c.toInt32).toUInt32

end Arith

namespace Machine

/-- The cause of a software interrupt. -/
def softwareCause : Word := 4

/-- The status with interrupts disabled. -/
def interruptsOff (status : Word) : Word := status &&& ~~~(1 : Word)

/-- The status and the return address are pushed, and the handler is entered with interrupts
disabled. -/
def interrupt (m : Machine) : Machine :=
  let m := m.push (m.control .status)
  let m := m.push m.pc
  let m := m.setControl .cause softwareCause
  let m := m.setControl .status (interruptsOff (m.control .status))
  m.jumpTo (m.control .handler)

/-- The address a + b + d. -/
def address (m : Machine) (a b : Register) (d : Int16) : Word :=
  Word.displaced (m.get a + m.get b) d

/-- A register moves on by a displacement. -/
def bump (m : Machine) (r : Register) (d : Int16) : Machine :=
  m.set r (Word.displaced (m.get r) d)

def call (m : Machine) (target : Word) : Machine := (m.push m.pc).jumpTo target

def popControl (m : Machine) (control : ControlRegister) (b : Register) (d : Int16) : Machine :=
  let value := m.load (m.get b)
  (m.bump b d).setControl control value

/-- The second half of a fused pop: the next word has to be a control pop, which retires in the
same step. The popped value is written last, so that a popped program counter takes effect. -/
def popPartner (m : Machine) (a : Register) (value : Word) : Machine × Option Trap :=
  let next := m.pc
  let word := m.fetch next
  let m := m.advance
  match Instruction.decode word with
  | .ok (.popControl control b d) => ((m.popControl control b d).set a value, none)
  | .ok _ => (m, some (.invalidInstruction next word (.invalidInstruction word)))
  | .error e => (m, some (.invalidInstruction next word e))

/-- An instruction that was fetched from `at_` takes effect; the program counter is already behind
it. -/
def execute (m : Machine) (at_ : Word) : Instruction → Machine × Option Trap
  | .halt => ({ m with halted := true }, none)
  | .interrupt => (m.interrupt, none)
  | .call a b d => (m.call (m.address a b d), none)
  | .callPool a b d => (m.advance.call (m.load (m.address a b d)), none)
  | .jump k a b c d =>
    (if k.holds (m.get b) (m.get c) then m.jumpTo (Word.displaced (m.get a) d) else m, none)
  | .jumpPool k a b c d =>
    let target := m.load (Word.displaced (m.get a) d)
    let m := m.advance
    (if k.holds (m.get b) (m.get c) then m.jumpTo target else m, none)
  | .exchange b c => ((m.set b (m.get c)).set c (m.get b), none)
  | .arith op a b c =>
    match op.result? (m.get b) (m.get c) with
    | some value => (m.set a value, none)
    | none => (m, some (.divisionByZero at_))
  | .logic op a b c => (m.set a (op.apply (m.get b) (m.get c)), none)
  | .shift op a b c => (m.set a (op.apply (m.get b) (m.get c)), none)
  | .store a b c d => (m.store (m.address a b d) (m.get c), none)
  | .push a c d =>
    let target := Word.displaced (m.get a) d
    let m := m.set a target
    (m.store target (m.get c), none)
  | .storePool a b c d => ((m.store (m.load (m.address a b d)) (m.get c)).advance, none)
  | .readControl a s => (m.set a (m.control s), none)
  | .move a b d => (m.set a (Word.displaced (m.get b) d), none)
  | .load a b d => (m.set a (m.load (Word.displaced (m.get b) d)), none)
  | .loadPool a b d => (m.advance.set a (m.load (Word.displaced (m.get b) d)), none)
  | .pop a b d => ((m.bump b d).set a (m.load (m.get b)), none)
  | .popFused a b d => (m.bump b d).popPartner a (m.load (m.get b))
  | .writeControl s b => (m.setControl s (m.get b), none)
  | .moveControl s b d => (m.setControl s (Word.displaced (m.get b) d), none)
  | .loadControl s b c d => (m.setControl s (m.load (m.address b c d)), none)
  | .popControl s b d => (m.popControl s b d, none)

/-- One instruction: the machine after it, and what was completed or why it was not. -/
def step (m : Machine) : Machine × Except Trap Retired :=
  let address := m.pc
  let word := m.fetch address
  match Instruction.decode word with
  | .error e => (m.advance, .error (.invalidInstruction address word e))
  | .ok i =>
    match m.advance.execute address i with
    | (m, none) => (m, .ok ⟨address, word⟩)
    | (m, some trap) => (m, .error trap)

/-- At most `n` steps, up to a halt or a trap: the machine after them, the completed instructions
and the trap. -/
def run : Nat → Machine → Machine × List Retired × Option Trap
  | 0, m => (m, [], none)
  | n + 1, m =>
    match m.step with
    | (m, .error trap) => (m, [], some trap)
    | (m, .ok retired) =>
      if m.halted then (m, [retired], none)
      else
        let (m, more, trap) := run n m
        (m, retired :: more, trap)

end Machine

end Toolchain32
