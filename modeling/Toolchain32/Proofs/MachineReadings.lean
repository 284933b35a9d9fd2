import Mathlib.Data.Nat.Bitwise
import Toolchain32.Proofs.MachineExecution

/-!
# What can be read of a machine

A `Reading` is what the registers, the control registers and every address of memory read, as
functions, with none of the machine's own reads and writes in it. The word of memory at an address is
the number whose bytes, the lowest first, are spelled by the word of the image that contains the
address. What each write of the machine does to its reading is an equation.
-/

namespace Toolchain32

def Word.spelledBytes (w : Word) : List Nat :=
  [w.toNat / 0x1000000, w.toNat / 0x10000 % 0x100, w.toNat / 0x100 % 0x100, w.toNat % 0x100]

/-- The number of some bytes, the lowest of which comes first. -/
def ofBytes : List Nat → Nat
  | [] => 0
  | b :: rest => b + 0x100 * ofBytes rest

theorem Word.unpack_eq_ofBytes (w : Word) :
    Word.unpack w = UInt32.ofNat (ofBytes w.spelledBytes) := by
  simp only [unpack, swapBytes, spelledBytes, ofBytes]
  congr 1
  omega

theorem Word.aligned_eq_iff {a b : Word} :
    Word.aligned a = Word.aligned b ↔ a.toNat / 4 = b.toNat / 4 := by
  rw [← UInt32.toNat_inj, toNat_aligned, toNat_aligned]
  omega

structure Reading where
  register : Nat → Word
  control : ControlRegister → Word
  memory : Word → Word
  halted : Bool

attribute [ext] Reading

namespace Reading

def write (r : Reading) (t : Nat) (v : Word) : Reading :=
  { r with register := fun s => if s = 0 then 0 else if s = t then v else r.register s }

def writeControl (r : Reading) (t : ControlRegister) (v : Word) : Reading :=
  { r with control := fun s => if s = t then v else r.control s }

/-- The whole word that contains the address is written. -/
def writeMemory (r : Reading) (a v : Word) : Reading :=
  { r with memory := fun b => if b.toNat / 4 = a.toNat / 4 then v else r.memory b }

end Reading

theorem Register.eq_iff_index {r s : Register} : r = s ↔ r.index.val = s.index.val :=
  ⟨fun h => h ▸ rfl, fun h => congrArg Register.mk (Fin.ext h)⟩

namespace Machine

def reading (m : Machine) : Reading where
  register n := if n = 0 then 0 else m.registers[n]?.getD 0
  control
    | .status => m.controls.status
    | .handler => m.controls.handler
    | .cause => m.controls.cause
  memory a :=
    match m.memory.words[UInt32.ofNat (a.toNat / 4 * 4)]? with
    | some w => UInt32.ofNat (ofBytes w.spelledBytes)
    | none => 0
  halted := m.halted

variable (m : Machine)

theorem get_eq_reading (r : Register) : m.get r = m.reading.register r.index := by
  have hzero : r = .zero ↔ r.index.val = 0 := Register.eq_iff_index
  simp only [reading, get, hzero, Vector.getElem?_eq_getElem r.index.isLt, Option.getD_some]
  rfl

theorem pc_eq_reading : m.pc = m.reading.register 15 := get_eq_reading ..

theorem control_eq_reading (c : ControlRegister) : m.control c = m.reading.control c := by
  cases c <;> rfl

theorem load_eq_reading (a : Word) : m.load a = m.reading.memory a := by
  have haligned : UInt32.ofNat (a.toNat / 4 * 4) = Word.aligned a := by
    rw [← Word.toNat_aligned, UInt32.ofNat_toNat]
  simp only [reading, load, fetch, Image.get?, haligned]
  cases m.memory.words[Word.aligned a]? with
  | none => rfl
  | some w => exact Word.unpack_eq_ofBytes w

theorem reading_halted :
    ({ m with halted := true } : Machine).reading = { m.reading with halted := true } := rfl

theorem reading_set (t : Register) (v : Word) :
    (m.set t v).reading = m.reading.write t.index v := by
  ext x : 2
  · by_cases hx : x < 16
    · have hget := get_set m t ⟨x, hx⟩ v
      simp only [get_eq_reading, Register.eq_iff_index] at hget
      rw [hget]
      simp only [Reading.write, eq_comm]
      rfl
    · have hbeyond (m : Machine) : m.reading.register x = 0 := by
        simp [reading, Vector.getElem?_eq_none (Nat.not_lt.mp hx)]
      have hne : x ≠ t.index := by omega
      simp only [Reading.write, hbeyond, hne, if_false, ite_self]
  · rw [← control_eq_reading, control_set, control_eq_reading]
    rfl
  · rw [← load_eq_reading, load_set, load_eq_reading]
    rfl
  · exact halted_set ..

theorem reading_jumpTo (a : Word) : (m.jumpTo a).reading = m.reading.write 15 a := reading_set ..

theorem reading_setControl (t : ControlRegister) (v : Word) :
    (m.setControl t v).reading = m.reading.writeControl t v := by
  ext x : 2
  · rfl
  · rw [← control_eq_reading, control, setControl, Controls.get_set, ← control, control_eq_reading]
    simp only [Reading.writeControl, eq_comm]
  · rfl
  · rfl

theorem reading_store (a v : Word) : (m.store a v).reading = m.reading.writeMemory a v := by
  ext x : 2
  · rfl
  · rfl
  · rw [← load_eq_reading, load_store, load_eq_reading]
    simp only [Reading.writeMemory, Word.aligned_eq_iff, eq_comm]
  · rfl

end Machine

end Toolchain32
