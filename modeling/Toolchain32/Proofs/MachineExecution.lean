import Toolchain32.Machine.Step
import Toolchain32.Proofs.InstructionCodec

/-!
# Executing words that are known

Writes to different parts of a machine do not disturb each other. `Machine.Holds` says which words
stand in memory from an address on, `Machine.steps` runs a number of steps all of which have to be
completed, and `steps_of_fetch` executes the first of them when the word at the program counter is
an encoded instruction.
-/

namespace Toolchain32

namespace Machine

variable (m : Machine) (r s : Register) (c : ControlRegister) (a b v w : Word)

@[simp] theorem fetch_set : (m.set r v).fetch a = m.fetch a := by
  unfold set; split <;> rfl

@[simp] theorem load_set : (m.set r v).load a = m.load a := by simp [load]

@[simp] theorem control_set : (m.set r v).control c = m.control c := by
  unfold set; split <;> rfl

@[simp] theorem halted_set : (m.set r v).halted = m.halted := by
  unfold set; split <;> rfl

@[simp] theorem memory_set : (m.set r v).memory = m.memory := by
  unfold set; split <;> rfl

@[simp] theorem controls_set : (m.set r v).controls = m.controls := by
  unfold set; split <;> rfl

@[simp] theorem fetch_jumpTo : (m.jumpTo b).fetch a = m.fetch a := fetch_set ..

@[simp] theorem load_jumpTo : (m.jumpTo b).load a = m.load a := load_set ..

@[simp] theorem control_jumpTo : (m.jumpTo a).control c = m.control c := control_set ..

@[simp] theorem pc_jumpTo : (m.jumpTo a).pc = a := by
  rw [pc, jumpTo, get_set, if_neg (by decide), if_pos rfl]

@[simp] theorem get_store : (m.store a v).get r = m.get r := rfl

@[simp] theorem pc_store : (m.store a v).pc = m.pc := rfl

theorem memory_store_self :
    (m.store a v).memory.get? (Word.aligned a) = some (Word.pack v) := by
  rw [store, Image.get?_set, if_pos rfl]

@[simp] theorem get_zero : m.get .zero = 0 := if_pos rfl

@[simp] theorem set_zero : m.set .zero v = m := if_pos rfl

variable {r s}

theorem get_set_of_ne (h : s ≠ r) : (m.set s v).get r = m.get r := by
  by_cases hr : r = .zero
  · simp [hr]
  · rw [get_set, if_neg hr, if_neg h]

theorem get_set_self (h : r ≠ .zero) : (m.set r v).get r = v := by
  rw [get_set, if_neg h, if_pos rfl]

theorem get_jumpTo (h : r ≠ .programCounter) : (m.jumpTo a).get r = m.get r :=
  get_set_of_ne m a h.symm

@[simp] theorem get_stackPointer_jumpTo :
    (m.jumpTo a).get .stackPointer = m.get .stackPointer := get_jumpTo m a (by decide)

variable (r s)

@[simp] theorem set_set : (m.set r v).set r w = m.set r w := by
  unfold set; split <;> simp

@[simp] theorem jumpTo_jumpTo : (m.jumpTo a).jumpTo b = m.jumpTo b := set_set ..

variable {r s}

theorem set_comm (h : r ≠ s) : (m.set r v).set s w = (m.set s w).set r v := by
  have hindex : r.index.val ≠ s.index.val := fun he =>
    h (congrArg Register.mk (Fin.ext he))
  unfold set
  by_cases hr : r = .zero <;> by_cases hs : s = .zero <;>
    simp [hr, hs, Vector.set_comm _ _ hindex]

theorem jumpTo_set (h : r ≠ .programCounter) : (m.set r v).jumpTo a = (m.jumpTo a).set r v :=
  set_comm m v a h

theorem set_store : (m.store a v).set r w = (m.set r w).store a v := by
  unfold set; split <;> rfl

theorem jumpTo_store : (m.store a v).jumpTo b = (m.jumpTo b).store a v := set_store ..

theorem pc_advance : m.advance.pc = m.pc + 4 := by rw [advance, pc_jumpTo]

theorem advance_advance : m.advance.advance = m.jumpTo (m.pc + 8) := by
  have h : m.pc + 4 + 4 = m.pc + 8 := by rw [UInt32.add_assoc]; rfl
  simp [advance, h]

def steps : Nat → Machine → Except Trap Machine
  | 0, m => .ok m
  | n + 1, m =>
    match m.step with
    | (m, .ok _) => m.steps n
    | (_, .error trap) => .error trap

def Holds (m : Machine) : Word → List Word → Prop
  | _, [] => True
  | a, w :: rest => m.fetch a = w ∧ m.Holds (a + 4) rest

theorem fetch_of_holds {m : Machine} {a : Word} {words : List Word} (h : m.Holds a words)
    {k : Nat} {w : Word} (hw : words[k]? = some w) : m.fetch (a + 4 * UInt32.ofNat k) = w := by
  induction words generalizing a k with
  | nil => simp at hw
  | cons first rest ih =>
    cases k with
    | zero => simpa [h.1] using hw
    | succ k =>
      have hnext := ih h.2 (by simpa using hw)
      rwa [UInt32.add_assoc, ← show 4 * UInt32.ofNat (k + 1) = 4 + 4 * UInt32.ofNat k by
        rw [UInt32.ofNat_add, UInt32.mul_add, UInt32.add_comm]; rfl] at hnext

theorem steps_of_decode {m after : Machine} {i : Instruction} (n : Nat)
    (hi : Instruction.decode (m.fetch m.pc) = .ok i)
    (he : m.advance.execute m.pc i = (after, none)) : m.steps (n + 1) = after.steps n := by
  simp only [steps, step, hi, he]

theorem steps_of_fetch {m after : Machine} {i : Instruction} (n : Nat)
    (hi : ∀ d ∈ i.displacement?, FitsDisplacement d) (hw : m.fetch m.pc = i.encode)
    (he : m.advance.execute m.pc i = (after, none)) : m.steps (n + 1) = after.steps n :=
  steps_of_decode n (hw ▸ Instruction.decode_encode_of_fits hi) he

/-- The second half of a fused pop, when the next word is the right one. -/
theorem popPartner_of_decode {m : Machine} {a b : Register} {control : ControlRegister}
    {d : Int16} (value : Word)
    (h : Instruction.decode (m.fetch m.pc) = .ok (.popControl control b d)) :
    m.popPartner a value = ((m.advance.popControl control b d).set a value, none) := by
  simp only [popPartner, h]

theorem steps_error_of_fetch {m after : Machine} {i : Instruction} {trap : Trap} (n : Nat)
    (hi : ∀ d ∈ i.displacement?, FitsDisplacement d) (hw : m.fetch m.pc = i.encode)
    (he : m.advance.execute m.pc i = (after, some trap)) : m.steps (n + 1) = .error trap := by
  simp only [steps, step, hw, Instruction.decode_encode_of_fits hi, he]

end Machine

end Toolchain32
