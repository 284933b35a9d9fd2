import Toolchain32.Image
import Toolchain32.Instruction.Codec

/-!
# The machine

The state of the machine is its registers, its control registers, its memory and whether it has
halted. The zero register always reads zero. Memory is accessed in whole words: the low two bits of
an address are dropped, and a word never written reads zero.
-/

namespace Toolchain32

/-- The values of the control registers. -/
structure Controls where
  status : Word
  handler : Word
  cause : Word
  deriving DecidableEq, Repr

namespace Controls

def get (c : Controls) : ControlRegister → Word
  | .status => c.status
  | .handler => c.handler
  | .cause => c.cause

def set (c : Controls) (r : ControlRegister) (value : Word) : Controls :=
  match r with
  | .status => { c with status := value }
  | .handler => { c with handler := value }
  | .cause => { c with cause := value }

theorem get_set (c : Controls) (r s : ControlRegister) (value : Word) :
    (c.set r value).get s = if r = s then value else c.get s := by
  cases r <;> cases s <;> rfl

end Controls

structure Machine where
  registers : Vector Word 16
  controls : Controls
  memory : Image
  halted : Bool
  deriving DecidableEq

namespace Machine

/-- Where execution begins. -/
def entry : Word := 0x40000000

/-- The status register at the start: interrupts are enabled, and so are the timer and the
terminal as sources of them. -/
def initialStatus : Word := 7

def start (memory : Image) : Machine where
  registers := (Vector.replicate 16 0).set Register.programCounter.index entry
  controls := ⟨initialStatus, 0, 0⟩
  memory := memory
  halted := false

def get (m : Machine) (r : Register) : Word := if r = .zero then 0 else m.registers[r.index]

def set (m : Machine) (r : Register) (value : Word) : Machine :=
  if r = .zero then m else { m with registers := m.registers.set r.index value }

def control (m : Machine) (r : ControlRegister) : Word := m.controls.get r

def setControl (m : Machine) (r : ControlRegister) (value : Word) : Machine :=
  { m with controls := m.controls.set r value }

def pc (m : Machine) : Word := m.get .programCounter

def jumpTo (m : Machine) (address : Word) : Machine := m.set .programCounter address

/-- The program counter moves on by one word. -/
def advance (m : Machine) : Machine := m.jumpTo (m.pc + 4)

/-- The word at an address as the image spells it. -/
def fetch (m : Machine) (address : Word) : Word := (m.memory.get? (Word.aligned address)).getD 0

/-- The word at an address as a value. -/
def load (m : Machine) (address : Word) : Word := Word.unpack (m.fetch address)

def store (m : Machine) (address value : Word) : Machine :=
  { m with memory := m.memory.set (Word.aligned address) (Word.pack value) }

/-- A value is put on the stack, which grows downward. -/
def push (m : Machine) (value : Word) : Machine :=
  let sp := m.get .stackPointer - 4
  (m.set .stackPointer sp).store sp value

theorem get_set (m : Machine) (r s : Register) (value : Word) :
    (m.set r value).get s = if s = .zero then 0 else if r = s then value else m.get s := by
  by_cases hs : s = .zero
  · simp [get, hs]
  · by_cases hr : r = .zero
    · have : r ≠ s := fun h => hs (h ▸ hr)
      simp [set, get, hr, hs, hr ▸ this]
    · obtain ⟨i⟩ := r
      obtain ⟨j⟩ := s
      simp [set, get, hr, hs, Vector.getElem_set, Fin.val_inj]

theorem fetch_store (m : Machine) (a b value : Word) :
    (m.store a value).fetch b =
      if Word.aligned a = Word.aligned b then Word.pack value else m.fetch b := by
  simp only [store, fetch, Image.get?_set]
  split <;> rfl

theorem load_store (m : Machine) (a b value : Word) :
    (m.store a value).load b =
      if Word.aligned a = Word.aligned b then value else m.load b := by
  simp only [load, fetch_store]
  split <;> simp

end Machine

end Toolchain32
