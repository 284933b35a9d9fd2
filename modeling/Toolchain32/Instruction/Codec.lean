import Toolchain32.Instruction
import Toolchain32.Text.Numeral
import Toolchain32.ErrorKind

/-!
# Instruction words

An instruction word holds, from the top, four bits of opcode, four bits of mode, three register
numbers `a`, `b`, `c` of four bits each and a signed displacement of twelve bits. `Fields.toWord`
and `Fields.ofWord` pack and unpack the fields; `Instruction.encode` and `Instruction.decode` go
between instructions and words.
-/

namespace Toolchain32

/-- The low four bits of a number. -/
def nibble (n : Nat) : Fin 16 := ⟨n % 16, Nat.mod_lt n (by decide)⟩

/-- The low twelve bits of a number. -/
def lowTwelve (n : Nat) : Fin 4096 := ⟨n % 4096, Nat.mod_lt n (by decide)⟩

@[simp] theorem val_nibble (n : Nat) : (nibble n).val = n % 16 := rfl

@[simp] theorem val_lowTwelve (n : Nat) : (lowTwelve n).val = n % 4096 := rfl

@[simp] theorem nibble_val (f : Fin 16) : nibble f.val = f := Fin.ext (Nat.mod_eq_of_lt f.isLt)

/-- The low twelve bits of a displacement, in two's complement. -/
def displacementField (d : Int16) : Fin 4096 := lowTwelve (d.toInt % 4096).toNat

/-- The displacement that twelve bits stand for. -/
def ofDisplacementField (f : Fin 4096) : Int16 := Word.displacement (UInt32.ofNat f.val)

/-- The fields of an instruction word. -/
structure Fields where
  opcode : Fin 16
  mode : Fin 16
  a : Fin 16
  b : Fin 16
  c : Fin 16
  displacement : Fin 4096
  deriving DecidableEq, Repr

namespace Fields

/-- The fields of numbers and a displacement, each cut to its width. -/
def ofNats (opcode mode a b c : Nat) (d : Int16) : Fields :=
  ⟨nibble opcode, nibble mode, nibble a, nibble b, nibble c, displacementField d⟩

def toWord (f : Fields) : Word :=
  UInt32.ofNat (f.opcode.val * 0x10000000 + f.mode.val * 0x1000000 + f.a.val * 0x100000 +
    f.b.val * 0x10000 + f.c.val * 0x1000 + f.displacement.val)

def ofWord (w : Word) : Fields where
  opcode := nibble (w.toNat / 0x10000000)
  mode := nibble (w.toNat / 0x1000000)
  a := nibble (w.toNat / 0x100000)
  b := nibble (w.toNat / 0x10000)
  c := nibble (w.toNat / 0x1000)
  displacement := lowTwelve w.toNat

@[simp] theorem ofWord_toWord (f : Fields) : ofWord f.toWord = f := by
  obtain ⟨⟨o, ho⟩, ⟨m, hm⟩, ⟨a, ha⟩, ⟨b, hb⟩, ⟨c, hc⟩, ⟨d, hd⟩⟩ := f
  simp only [ofWord, toWord, UInt32.toNat_ofNat', nibble, lowTwelve, mk.injEq, Fin.mk.injEq]
  refine ⟨?_, ?_, ?_, ?_, ?_, ?_⟩ <;> omega

end Fields

/-- Why a word is no instruction. -/
inductive DecodeError
  | invalidInstruction (word : Word)
  | invalidControlRegister (index : Nat)
  deriving DecidableEq, Repr

namespace DecodeError

def message : DecodeError → String
  | invalidInstruction word => "Invalid instruction word: " ++ Text.upperHex 8 word.toNat
  | invalidControlRegister index => s!"Invalid control register index: {index}"

def kind (_ : DecodeError) : ErrorKind := .runtime

end DecodeError

namespace Condition

def code : Condition → Nat
  | always => 0
  | equal => 1
  | notEqual => 2
  | greater => 3

end Condition

namespace Arith

def code : Arith → Nat
  | add => 0
  | sub => 1
  | mul => 2
  | div => 3

end Arith

namespace Logic

def code : Logic → Nat
  | not => 0
  | and => 1
  | or => 2
  | xor => 3

end Logic

namespace Shift

def code : Shift → Nat
  | left => 0
  | right => 1

end Shift

namespace Instruction

/-- The fields of an instruction. The mode of a pool jump is the condition's code plus eight, and
the `c` field tells the pool load and the fused pop from the plain ones. -/
def fields : Instruction → Fields
  | halt => .ofNats 0 0 0 0 0 0
  | interrupt => .ofNats 1 0 0 0 0 0
  | call a b d => .ofNats 2 0 a.index b.index 0 d
  | callPool a b d => .ofNats 2 1 a.index b.index 0 d
  | jump k a b c d => .ofNats 3 k.code a.index b.index c.index d
  | jumpPool k a b c d => .ofNats 3 (k.code + 8) a.index b.index c.index d
  | exchange b c => .ofNats 4 0 0 b.index c.index 0
  | arith op a b c => .ofNats 5 op.code a.index b.index c.index 0
  | logic op a b c => .ofNats 6 op.code a.index b.index c.index 0
  | shift op a b c => .ofNats 7 op.code a.index b.index c.index 0
  | store a b c d => .ofNats 8 0 a.index b.index c.index d
  | push a c d => .ofNats 8 1 a.index 0 c.index d
  | storePool a b c d => .ofNats 8 2 a.index b.index c.index d
  | readControl a s => .ofNats 9 0 a.index s.index 0 0
  | move a b d => .ofNats 9 1 a.index b.index 0 d
  | load a b d => .ofNats 9 2 a.index b.index 0 d
  | loadPool a b d => .ofNats 9 2 a.index b.index 1 d
  | pop a b d => .ofNats 9 3 a.index b.index 0 d
  | popFused a b d => .ofNats 9 3 a.index b.index 1 d
  | writeControl s b => .ofNats 9 4 s.index b.index 0 0
  | moveControl s b d => .ofNats 9 5 s.index b.index 0 d
  | loadControl s b c d => .ofNats 9 6 s.index b.index c.index d
  | popControl s b d => .ofNats 9 7 s.index b.index 0 d

def encode (i : Instruction) : Word := i.fields.toWord

/-- The control register of a field. -/
def controlOf (index : Fin 16) : Except DecodeError ControlRegister :=
  match ControlRegister.ofNat? index.val with
  | some s => .ok s
  | none => .error (.invalidControlRegister index.val)

/-- The load family and its control forms, by mode. -/
def ofLoadFields (word : Word) (f : Fields) : Except DecodeError Instruction :=
  let a : Register := ⟨f.a⟩
  let b : Register := ⟨f.b⟩
  let c : Register := ⟨f.c⟩
  let d := ofDisplacementField f.displacement
  match f.mode.val with
  | 0 => (controlOf f.b).map (readControl a)
  | 1 => .ok (move a b d)
  | 2 => .ok (if f.c.val = 0 then load a b d else loadPool a b d)
  | 3 => .ok (if f.c.val = 0 then pop a b d else popFused a b d)
  | 4 => (controlOf f.a).map (writeControl · b)
  | 5 => (controlOf f.a).map (moveControl · b d)
  | 6 => (controlOf f.a).map (loadControl · b c d)
  | 7 => (controlOf f.a).map (popControl · b d)
  | _ => .error (.invalidInstruction word)

/-- The instruction that the `n`-th member of a family makes. -/
def member {α : Type} (word : Word) (family : List α) (n : Nat) (make : α → Instruction) :
    Except DecodeError Instruction :=
  match family[n]? with
  | some x => .ok (make x)
  | none => .error (.invalidInstruction word)

/-- The instruction of a word with its fields: the opcode selects the family and the mode its
member. Halt and interrupt ignore every other field. -/
def ofFields (word : Word) (f : Fields) : Except DecodeError Instruction :=
  let a : Register := ⟨f.a⟩
  let b : Register := ⟨f.b⟩
  let c : Register := ⟨f.c⟩
  let d := ofDisplacementField f.displacement
  match f.opcode.val with
  | 0 => .ok halt
  | 1 => .ok interrupt
  | 2 => member word [call a b d, callPool a b d] f.mode.val id
  | 3 =>
    if f.mode.val < 8 then member word Condition.all f.mode.val (jump · a b c d)
    else member word Condition.all (f.mode.val - 8) (jumpPool · a b c d)
  | 4 => member word [exchange b c] f.mode.val id
  | 5 => member word Arith.all f.mode.val (arith · a b c)
  | 6 => member word Logic.all f.mode.val (logic · a b c)
  | 7 => member word Shift.all f.mode.val (shift · a b c)
  | 8 => member word [store a b c d, push a c d, storePool a b c d] f.mode.val id
  | 9 => ofLoadFields word f
  | _ => .error (.invalidInstruction word)

def decode (word : Word) : Except DecodeError Instruction := ofFields word (.ofWord word)

theorem decode_toWord (f : Fields) : decode f.toWord = ofFields f.toWord f := by
  rw [decode, Fields.ofWord_toWord]

end Instruction

end Toolchain32
