import Mathlib.Algebra.GroupWithZero.Nat
import Toolchain32.Proofs.LegalLines
import Toolchain32.Proofs.MachineReadings
import Toolchain32.Proofs.ValueForms

/-!
# What operations mean

`Operation.meaning` says what an operation of the source makes of what can be read of a machine, in
terms of its operands and with no regard to its encoding or to how the machine works: arithmetic is
that of the integers, shifts multiply and divide by powers of two, and logic goes bit by bit.
`Operation.perform` is the same on machines (`reading_perform`). `steps_of_legal` says that executing
the words of an operation does just that, unless the operation names the program counter, and
`steps_of_read` that this holds of every operation that can be written.
-/

namespace Toolchain32

namespace Word

def signed (w : Word) : Int := if w.toNat < 0x80000000 then w.toNat else w.toNat - 0x100000000

theorem toInt_toBitVec (w : Word) : w.toBitVec.toInt = w.signed := by
  have h := w.toNat_lt
  rw [BitVec.toInt_eq_toNat_cond, UInt32.toNat_toBitVec, signed]
  split <;> split <;> omega

theorem toBitVec_ofInt (i : Int) : (UInt32.ofInt i).toBitVec = BitVec.ofInt 32 i := by
  apply BitVec.eq_of_toNat_eq
  rw [BitVec.toNat_ofInt, UInt32.toNat_toBitVec, UInt32.ofInt, UInt32.toNat_ofNat']
  omega

theorem ofInt_signed (w : Word) : UInt32.ofInt w.signed = w := by
  rw [← toInt_toBitVec, ← UInt32.toBitVec_inj, toBitVec_ofInt, BitVec.ofInt_toInt]

theorem signed_inj {w x : Word} : w.signed = x.signed ↔ w = x :=
  ⟨fun h => by rw [← ofInt_signed w, h, ofInt_signed], fun h => by rw [h]⟩

end Word

/-- The result on integers, where division truncates toward zero. -/
def Arith.integer : Arith → Int → Int → Int
  | add, b, c => b + c
  | sub, b, c => b - c
  | mul, b, c => b * c
  | div, b, c => b.tdiv c

def Condition.compares : Condition → Int → Int → Prop
  | always, _, _ => True
  | equal, b, c => b = c
  | notEqual, b, c => b ≠ c
  | greater, b, c => b > c

instance (k : Condition) (b c : Int) : Decidable (k.compares b c) := by
  cases k <;> unfold Condition.compares <;> infer_instance

def Shift.natural : Shift → Nat → Nat → Nat
  | left, n, distance => n * 2 ^ distance
  | right, n, distance => n / 2 ^ distance

theorem Arith.result?_eq (op : Arith) (b c : Word) :
    op.result? b c =
      if op = .div ∧ c = 0 then none else some (UInt32.ofInt (op.integer b.signed c.signed)) := by
  cases op with
  | add => simp [result?, integer, Word.ofInt_signed]
  | sub => simp [result?, integer, Int.sub_eq_add_neg, Word.ofInt_signed, UInt32.sub_eq_add_neg]
  | mul => simp [result?, integer, Word.ofInt_signed]
  | div =>
    have h : (b.toInt32 / c.toInt32).toUInt32 = UInt32.ofInt (b.signed.tdiv c.signed) := by
      have hdiv : (b.toInt32 / c.toInt32).toUInt32.toBitVec = b.toBitVec.sdiv c.toBitVec := rfl
      apply UInt32.toBitVec_inj.mp
      apply BitVec.eq_of_toInt_eq
      rw [hdiv, BitVec.toInt_sdiv, Word.toBitVec_ofInt, BitVec.toInt_ofInt, Word.toInt_toBitVec,
        Word.toInt_toBitVec]
    by_cases hc : c = 0 <;> simp [result?, integer, hc, h]

theorem Condition.holds_iff (k : Condition) (b c : Word) :
    k.holds b c = true ↔ k.compares b.signed c.signed := by
  cases k with
  | always => simp [holds, compares]
  | equal => simp [holds, compares, Word.signed_inj]
  | notEqual => simp [holds, compares, Word.signed_inj]
  | greater =>
    simp only [holds, compares, decide_eq_true_eq, Int32.lt_iff_toInt_lt]
    rw [← Word.toInt_toBitVec, ← Word.toInt_toBitVec]
    exact Iff.rfl

theorem Shift.apply_eq (s : Shift) (b c : Word) :
    s.apply b c = UInt32.ofNat (s.natural b.toNat c.toNat) := by
  have hb := b.toNat_lt
  by_cases hc : c < 32
  · have hsmall : c.toNat < 32 := UInt32.lt_iff_toNat_lt.mp hc
    have hmod : c.toNat % 32 = c.toNat := Nat.mod_eq_of_lt hsmall
    apply UInt32.toNat_inj.mp
    cases s with
    | left =>
      rw [apply, if_pos hc, UInt32.toNat_shiftLeft, UInt32.toNat_ofNat', hmod, natural,
        Nat.shiftLeft_eq]
    | right =>
      have hle : b.toNat / 2 ^ c.toNat ≤ b.toNat := Nat.div_le_self ..
      rw [apply, if_pos hc, UInt32.toNat_shiftRight, UInt32.toNat_ofNat', hmod, natural,
        Nat.shiftRight_eq_div_pow, Nat.mod_eq_of_lt (by omega)]
  · have hlarge : 32 ≤ c.toNat := Nat.not_lt.mp fun h => hc (UInt32.lt_iff_toNat_lt.mpr h)
    unfold apply
    rw [if_neg hc]
    apply UInt32.toNat_inj.mp
    cases s with
    | left =>
      have hpow : 2 ^ c.toNat = 2 ^ 32 * 2 ^ (c.toNat - 32) := by
        rw [← Nat.pow_add, Nat.add_sub_cancel' hlarge]
      rw [natural, UInt32.toNat_ofNat', hpow, Nat.mul_left_comm, Nat.mul_mod_right]
      rfl
    | right =>
      have hpow : b.toNat < 2 ^ c.toNat :=
        Nat.lt_of_lt_of_le hb (Nat.pow_le_pow_right (by decide) hlarge)
      rw [natural, Nat.div_eq_of_lt hpow]
      rfl

def Logic.bit : Logic → Bool → Bool → Bool
  | not, b, _ => !b
  | and, b, c => b && c
  | or, b, c => b || c
  | xor, b, c => b != c

/-- The result on natural numbers, whose lowest 32 bits are combined one by one. -/
def Logic.bitwise (op : Logic) (b c : Nat) : Nat :=
  Nat.ofBits fun i : Fin 32 => op.bit (b.testBit i) (c.testBit i)

theorem Word.eq_ofNat_of_testBit {w : Word} {n : Nat} (hn : n < 2 ^ 32)
    (h : ∀ i < 32, w.toBitVec.getLsbD i = n.testBit i) : w = UInt32.ofNat n := by
  apply UInt32.toBitVec_inj.mp
  apply BitVec.eq_of_getLsbD_eq
  intro i hi
  rw [h i hi, ← BitVec.testBit_toNat, UInt32.toNat_toBitVec, UInt32.toNat_ofNat_of_lt' hn]

theorem Logic.apply_eq (op : Logic) (b c : Word) :
    op.apply b c = UInt32.ofNat (op.bitwise b.toNat c.toNat) := by
  refine Word.eq_ofNat_of_testBit (Nat.ofBits_lt_two_pow _) fun i hi => ?_
  rw [bitwise, Nat.testBit_ofBits_lt _ i hi, ← UInt32.toNat_toBitVec, ← UInt32.toNat_toBitVec,
    BitVec.testBit_toNat, BitVec.testBit_toNat]
  cases op <;> simp [apply, bit, hi]

def Place.registers : Place → List Register
  | memory _ => []
  | register r => [r]
  | indirect base _ => [base]

def Operand.registers : Operand → List Register
  | immediate _ => []
  | place p => p.registers

namespace Operation

def registers : Operation → List Register
  | halt | interrupt | interruptReturn | subroutineReturn | call _ | jump _ => []
  | push r | pop r | complement r | readControl _ r | writeControl r _ => [r]
  | branch _ b c _ => [b, c]
  | exchange s t | arith _ s t | logic _ s t | shift _ s t => [s, t]
  | load source t => t :: source.registers
  | store s target => s :: target.registers

/-- How many steps an operation takes: two for a load from memory whose address has a word of its
own, and one for every other operation. -/
def stepCount : Operation → Nat
  | load (.place (.memory v)) _ => wordsFor v 2
  | _ => 1

def perform (env : String → Word) (op : Operation) (m : Machine) : Except Trap Machine :=
  let next := m.pc + UInt32.ofNat op.size
  let sp := m.get .stackPointer
  let after := m.jumpTo next
  match op with
  | halt => .ok { after with halted := true }
  | interrupt =>
    let saved := ((after.set .stackPointer (sp - 8)).store (sp - 4) (m.control .status)).store
      (sp - 8) next
    let flagged := (saved.setControl .cause 4).setControl .status (m.control .status &&& ~~~1)
    .ok (flagged.jumpTo (m.control .handler))
  | interruptReturn =>
    let restored := (after.set .stackPointer (sp + 8)).setControl .status (m.load (sp + 4))
    .ok (restored.jumpTo (m.load sp))
  | subroutineReturn => .ok ((after.set .stackPointer (sp + 4)).jumpTo (m.load sp))
  | call v => .ok (((after.set .stackPointer (sp - 4)).store (sp - 4) next).jumpTo (v.eval env))
  | jump v => .ok (after.jumpTo (v.eval env))
  | branch k b c v =>
    .ok (if k.compares (m.get b).signed (m.get c).signed then after.jumpTo (v.eval env) else after)
  | push r =>
    let lowered := after.set .stackPointer (sp - 4)
    .ok (lowered.store (sp - 4) (lowered.get r))
  | pop r => .ok ((after.set .stackPointer (sp + 4)).set r (m.load sp))
  | exchange s t => .ok ((after.set t (m.get s)).set s (m.get t))
  | arith op s t =>
    if op = .div ∧ m.get s = 0 then .error (.divisionByZero m.pc)
    else .ok (after.set t (UInt32.ofInt (op.integer (m.get t).signed (m.get s).signed)))
  | logic op s t => .ok (after.set t (op.apply (m.get t) (m.get s)))
  | complement r => .ok (after.set r (~~~m.get r))
  | shift op s t =>
    .ok (after.set t (UInt32.ofNat (op.natural (m.get t).toNat (m.get s).toNat)))
  | readControl control t => .ok (after.set t (m.control control))
  | writeControl s control => .ok (after.setControl control (m.get s))
  | load source t =>
    match source with
    | .immediate v => .ok (after.set t (v.eval env))
    | .place (.memory v) => .ok (after.set t (m.load (v.eval env)))
    | .place (.register r) => .ok (after.set t (m.get r))
    | .place (.indirect base d) => .ok (after.set t (m.load (.displaced (m.get base) d)))
  | store s target =>
    match target with
    | .memory v => .ok (after.store (v.eval env) (m.get s))
    | .register r => .ok (after.set r (m.get s))
    | .indirect base d => .ok (after.store (.displaced (m.get base) d) (m.get s))

/-- What an operation makes of what can be read of a machine that stands at it. Register 14 is the
stack pointer, which points to the word on top of a stack that grows downward, and register 15 the
program counter. -/
def meaning (env : String → Word) (op : Operation) (r : Reading) : Except Trap Reading :=
  let value (s : Register) : Word := r.register s.index
  let sp := r.register 14
  let next := r.register 15 + UInt32.ofNat op.size
  let after := r.write 15 next
  match op with
  | halt => .ok { after with halted := true }
  | interrupt =>
    let saved := ((after.write 14 (sp - 8)).writeMemory (sp - 4) (r.control .status)).writeMemory
      (sp - 8) next
    let disabled := UInt32.ofNat ((r.control .status).toNat / 2 * 2)
    let flagged := (saved.writeControl .cause 4).writeControl .status disabled
    .ok (flagged.write 15 (r.control .handler))
  | interruptReturn =>
    let restored := (after.write 14 (sp + 8)).writeControl .status (r.memory (sp + 4))
    .ok (restored.write 15 (r.memory sp))
  | subroutineReturn => .ok ((after.write 14 (sp + 4)).write 15 (r.memory sp))
  | call v => .ok (((after.write 14 (sp - 4)).writeMemory (sp - 4) next).write 15 (v.eval env))
  | jump v => .ok (after.write 15 (v.eval env))
  | branch k b c v =>
    .ok (if k.compares (value b).signed (value c).signed then after.write 15 (v.eval env)
      else after)
  | push s =>
    let lowered := after.write 14 (sp - 4)
    .ok (lowered.writeMemory (sp - 4) (lowered.register s.index))
  | pop t => .ok ((after.write 14 (sp + 4)).write t.index (r.memory sp))
  | exchange s t => .ok ((after.write t.index (value s)).write s.index (value t))
  | arith op s t =>
    if op = .div ∧ value s = 0 then .error (.divisionByZero (r.register 15))
    else .ok (after.write t.index (UInt32.ofInt (op.integer (value t).signed (value s).signed)))
  | logic op s t =>
    .ok (after.write t.index (UInt32.ofNat (op.bitwise (value t).toNat (value s).toNat)))
  | complement t => .ok (after.write t.index (UInt32.ofNat (0xFFFFFFFF - (value t).toNat)))
  | shift op s t =>
    .ok (after.write t.index (UInt32.ofNat (op.natural (value t).toNat (value s).toNat)))
  | readControl control t => .ok (after.write t.index (r.control control))
  | writeControl s control => .ok (after.writeControl control (value s))
  | load source t =>
    match source with
    | .immediate v => .ok (after.write t.index (v.eval env))
    | .place (.memory v) => .ok (after.write t.index (r.memory (v.eval env)))
    | .place (.register s) => .ok (after.write t.index (value s))
    | .place (.indirect base d) =>
      .ok (after.write t.index (r.memory (UInt32.ofInt ((value base).toNat + d.toInt))))
  | store s target =>
    match target with
    | .memory v => .ok (after.writeMemory (v.eval env) (value s))
    | .register t => .ok (after.write t.index (value s))
    | .indirect base d =>
      .ok (after.writeMemory (UInt32.ofInt ((value base).toNat + d.toInt)) (value s))

theorem displaced_eq (base : Word) (d : Int16) :
    Word.displaced base d = UInt32.ofInt (base.toNat + d.toInt) := by
  apply UInt32.toBitVec_inj.mp
  rw [Word.displaced, UInt32.toBitVec_add, Word.toBitVec_ofInt, Word.toBitVec_ofInt,
    BitVec.ofInt_add]
  simp

theorem interruptsOff_eq (w : Word) : w &&& ~~~1 = UInt32.ofNat (w.toNat / 2 * 2) := by
  have hw := w.toNat_lt
  have hshift : w.toNat / 2 * 2 = (w.toNat >>> 1) <<< 1 := by
    rw [Nat.shiftRight_eq_div_pow, Nat.shiftLeft_eq]
  have hmask : ∀ i < 31, (~~~(1 : Word)).toBitVec.getLsbD (i + 1) = true := by decide
  refine Word.eq_ofNat_of_testBit (by omega) fun i hi => ?_
  rw [UInt32.toBitVec_and, BitVec.getLsbD_and, hshift, Nat.testBit_shiftLeft,
    Nat.testBit_shiftRight]
  cases i with
  | zero => simp
  | succ i =>
    rw [hmask i (by omega), Nat.add_sub_cancel' (by omega), ← UInt32.toNat_toBitVec,
      BitVec.testBit_toNat]
    simp

theorem complement_eq (w : Word) : ~~~w = UInt32.ofNat (0xFFFFFFFF - w.toNat) := by
  have hsmall : 0xFFFFFFFF - w.toNat < 2 ^ 32 := by omega
  apply UInt32.toNat_inj.mp
  rw [UInt32.toNat_not, UInt32.toNat_ofNat_of_lt' hsmall]
  rfl

open Machine in
theorem reading_perform (env : String → Word) (op : Operation) (m : Machine) :
    (op.perform env m).map Machine.reading = op.meaning env m.reading := by
  have hsp : (Register.stackPointer.index : Nat) = 14 := rfl
  cases op with
  | interrupt =>
    simp only [perform, meaning, Except.map, reading_set, reading_jumpTo, reading_store,
      reading_setControl, get_eq_reading, pc_eq_reading, control_eq_reading, interruptsOff_eq,
      hsp]
  | branch k b c v =>
    simp only [perform, meaning, Except.map, apply_ite reading, reading_jumpTo, get_eq_reading,
      pc_eq_reading]
  | arith op s t =>
    simp only [perform, meaning, get_eq_reading, pc_eq_reading]
    split
    · rfl
    · simp only [Except.map, reading_set, reading_jumpTo]
  | load source t =>
    rcases source with v | v | s | ⟨base, d⟩ <;>
      simp only [perform, meaning, Except.map, reading_set, reading_jumpTo, get_eq_reading,
        pc_eq_reading, load_eq_reading, displaced_eq]
  | store s target =>
    cases target <;>
      simp only [perform, meaning, Except.map, reading_set, reading_jumpTo, reading_store,
        get_eq_reading, pc_eq_reading, displaced_eq]
  | _ =>
    simp only [perform, meaning, Except.map, reading_set, reading_jumpTo, reading_store,
      reading_setControl, reading_halted, get_eq_reading, pc_eq_reading, control_eq_reading,
      load_eq_reading, complement_eq, Logic.apply_eq, hsp]

variable {env : String → Word} {m : Machine}

theorem fetch_of_pieces {op : Operation} {i : Instruction} {rest : List Piece}
    (hop : op.pieces = .word i.encode :: rest) (hm : m.Holds m.pc (op.words env)) :
    m.fetch m.pc = i.encode := by
  rw [words, hop] at hm
  exact hm.1

/-- An operation of one word takes one step, in which its instruction is executed. -/
theorem steps_of_pieces {op : Operation} {i : Instruction} {rest : List Piece} {after : Machine}
    (hm : m.Holds m.pc (op.words env)) (hop : op.pieces = .word i.encode :: rest)
    (hi : ∀ d ∈ i.displacement?, FitsDisplacement d)
    (he : m.advance.execute m.pc i = (after, none)) : m.steps 1 = .ok after :=
  Machine.steps_of_fetch 0 hi (fetch_of_pieces hop hm) he

theorem steps_arith {op : Arith} {s t : Register} (hs : m.advance.get s = m.get s)
    (ht : m.advance.get t = m.get t) (hm : m.Holds m.pc ((arith op s t).words env)) :
    m.steps 1 = (arith op s t).perform env m := by
  have hresult := Arith.result?_eq op (m.get t) (m.get s)
  have hfits : ∀ d ∈ (Instruction.arith op t t s).displacement?, FitsDisplacement d := by
    rintro _ ⟨⟩
  simp only [perform]
  by_cases hzero : op = .div ∧ m.get s = 0
  · rw [if_pos hzero] at hresult ⊢
    have htrap : m.advance.execute m.pc (.arith op t t s) =
        (m.advance, some (.divisionByZero m.pc)) := by
      simp only [Machine.execute, hs, ht, hresult]
    exact Machine.steps_error_of_fetch 0 hfits (fetch_of_pieces rfl hm) htrap
  · rw [if_neg hzero] at hresult ⊢
    refine steps_of_pieces hm rfl hfits ?_
    simp only [Machine.execute, hs, ht, hresult]
    rfl

theorem stepCount_of_inline {v : Value} {d : Int16} (f : ValueForm) (h : v.inline? = some d) :
    (f.operation v).stepCount = 1 := by
  cases f <;> simp [ValueForm.operation, stepCount, wordsFor, h]

theorem stepCount_of_extended {v : Value} (f : ValueForm) (h : v.inline? = none) :
    (f.operation v).stepCount = f.extendedSteps := by
  cases f <;>
    simp [ValueForm.operation, stepCount, wordsFor, h, ValueForm.extendedSteps, ValueForm.rest]

theorem size_of_inline {v : Value} {d : Int16} (f : ValueForm) (h : v.inline? = some d) :
    (f.operation v).size = 4 := by
  rw [size, ← length_pieces, ValueForm.pieces_of_inline f h]
  rfl

theorem size_of_extended {v : Value} (f : ValueForm) (h : v.inline? = none) :
    (f.operation v).size = f.extendedSize := by
  rw [size, ← length_pieces, ValueForm.pieces_of_extended f h, ValueForm.extendedSize]
  simp only [List.length_cons, List.length_map]
  omega

theorem extensible_of_registers {f : ValueForm} {v : Value}
    (h : .programCounter ∉ (f.operation v).registers) : f.Extensible := by
  cases f with
  | loadWord t | storeWord s => exact fun hr => h (by simp [ValueForm.operation, registers, hr])
  | _ => trivial

theorem perform_valueForm {f : ValueForm} {v : Value}
    (h : .programCounter ∉ (f.operation v).registers) :
    (f.operation v).perform env m =
      .ok (f.effect (v.eval env) (m.pc + UInt32.ofNat (f.operation v).size) m) := by
  have hget : ∀ r ∈ (f.operation v).registers, ∀ a, (m.jumpTo a).get r = m.get r :=
    fun r hr a => Machine.get_jumpTo m a (fun he => h (he ▸ hr))
  cases f with
  | branch k b c =>
    have hb := hget b (by simp [ValueForm.operation, registers])
    have hc := hget c (by simp [ValueForm.operation, registers])
    simp [ValueForm.operation, perform, ValueForm.effect, hb, hc, Condition.holds_iff]
  | storeWord s =>
    have hs := hget s (by simp [ValueForm.operation, registers])
    simp [ValueForm.operation, perform, ValueForm.effect, hs]
  | _ => simp [ValueForm.operation, perform, ValueForm.effect, Machine.push]

theorem steps_valueForm (f : ValueForm) {v : Value}
    (h : .programCounter ∉ (f.operation v).registers)
    (hm : m.Holds m.pc ((f.operation v).words env)) :
    m.steps (f.operation v).stepCount = (f.operation v).perform env m := by
  rw [perform_valueForm h]
  cases hv : v.inline? with
  | some d =>
    rw [stepCount_of_inline f hv, size_of_inline f hv]
    exact ValueForm.steps_of_inline f hv hm
  | none =>
    rw [stepCount_of_extended f hv, size_of_extended f hv]
    exact ValueForm.steps_of_extended f hv (extensible_of_registers h) hm

theorem displaced_four (base : Word) : Word.displaced base 4 = base + 4 := rfl

theorem displaced_neg_four (base : Word) : Word.displaced base (-4) = base - 4 := by
  rw [Word.displaced, UInt32.sub_eq_add_neg]
  rfl

theorem sub_four_sub_four (w : Word) : w - 4 - 4 = w - 8 := by
  simp only [UInt32.sub_eq_add_neg, UInt32.add_assoc]
  rfl

theorem add_four_add_four (w : Word) : w + 4 + 4 = w + 8 := by
  rw [UInt32.add_assoc]
  rfl

theorem steps_interrupt (hm : m.Holds m.pc (interrupt.words env)) :
    m.steps 1 = interrupt.perform env m := by
  refine steps_of_pieces hm rfl (by rintro _ ⟨⟩) ?_
  have hpush : m.advance.push (m.control .status) =
      (m.advance.set .stackPointer (m.get .stackPointer - 4)).store (m.get .stackPointer - 4)
        (m.control .status) := by
    rw [Machine.push, Machine.advance, Machine.get_stackPointer_jumpTo]
  have hpc : (m.advance.push (m.control .status)).pc = m.pc + 4 := by
    rw [hpush, Machine.pc_store, Machine.pc, Machine.get_set_of_ne _ _ (by decide)]
    exact Machine.pc_jumpTo ..
  have hpushes : (m.advance.push (m.control .status)).push (m.pc + 4) =
      ((m.advance.set .stackPointer (m.get .stackPointer - 8)).store (m.get .stackPointer - 4)
        (m.control .status)).store (m.get .stackPointer - 8) (m.pc + 4) := by
    rw [hpush, Machine.push, Machine.get_store, Machine.get_set_self _ _ (by decide),
      sub_four_sub_four, Machine.set_store, Machine.set_set]
  rw [Machine.execute, Machine.interrupt]
  simp only [Machine.advance, Machine.control_jumpTo] at hpc hpushes ⊢
  rw [hpc, hpushes]
  rfl

theorem popPartner_of_fetch {a b : Register} {control : ControlRegister} {d : Int16} (value : Word)
    (hd : FitsDisplacement d) (hw : m.fetch m.pc = (Instruction.popControl control b d).encode) :
    m.popPartner a value = ((m.advance.popControl control b d).set a value, none) := by
  have hdecode : Instruction.decode (m.fetch m.pc) = .ok (.popControl control b d) := by
    rw [hw]
    exact Instruction.decode_encode_of_fits (by rintro _ ⟨rfl⟩; exact hd)
  exact Machine.popPartner_of_decode value hdecode

theorem steps_interruptReturn (hm : m.Holds m.pc (interruptReturn.words env)) :
    m.steps 1 = interruptReturn.perform env m := by
  refine steps_of_pieces hm rfl (by rintro _ ⟨rfl⟩; decide) ?_
  have hbump : m.advance.bump .stackPointer 4 =
      m.advance.set .stackPointer (m.get .stackPointer + 4) := by
    rw [Machine.bump, Machine.advance, Machine.get_stackPointer_jumpTo, displaced_four]
  have hpc : (m.advance.set .stackPointer (m.get .stackPointer + 4)).pc = m.pc + 4 := by
    rw [Machine.pc, Machine.get_set_of_ne _ _ (by decide)]
    exact Machine.pc_jumpTo ..
  have hadvance : (m.advance.set .stackPointer (m.get .stackPointer + 4)).advance =
      (m.jumpTo (m.pc + 8)).set .stackPointer (m.get .stackPointer + 4) := by
    rw [Machine.advance, hpc, Machine.jumpTo_set _ _ _ (by decide), Machine.advance,
      Machine.jumpTo_jumpTo, add_four_add_four]
  have hload : m.advance.load (m.advance.get .stackPointer) = m.load (m.get .stackPointer) := by
    rw [Machine.advance, Machine.load_jumpTo, Machine.get_stackPointer_jumpTo]
  have hpartner : (m.advance.set .stackPointer (m.get .stackPointer + 4)).fetch
      (m.advance.set .stackPointer (m.get .stackPointer + 4)).pc =
        (Instruction.popControl .status .stackPointer 4).encode := by
    rw [hpc, Machine.fetch_set, Machine.advance, Machine.fetch_jumpTo]
    exact hm.2.1
  rw [Machine.execute, hbump, popPartner_of_fetch _ (by decide) hpartner, hadvance, hload]
  simp only [Machine.popControl, Machine.bump, displaced_four, add_four_add_four, Machine.set_set,
    Machine.get_set_self _ _ (show Register.stackPointer ≠ .zero by decide), Machine.load_set,
    Machine.load_jumpTo]
  rfl

theorem steps_of_legal {op : Operation} (hlegal : op.Legal)
    (hpc : .programCounter ∉ op.registers) (hm : m.Holds m.pc (op.words env)) :
    m.steps op.stepCount = op.perform env m := by
  have hget : ∀ r ∈ op.registers, m.advance.get r = m.get r := fun r hr =>
    Machine.get_jumpTo m _ (fun h => hpc (h ▸ hr))
  -- Only operations with a value have two encodings; the others are the same words for all values.
  cases op with
  | halt => exact steps_of_pieces hm rfl (by rintro _ ⟨⟩) rfl
  | interrupt => exact steps_interrupt hm
  | interruptReturn => exact steps_interruptReturn hm
  | subroutineReturn =>
    refine steps_of_pieces hm rfl (by rintro _ ⟨rfl⟩; decide) ?_
    simp only [Machine.execute, Machine.bump, Machine.advance, Machine.get_stackPointer_jumpTo,
      Machine.load_jumpTo, displaced_four]
    rfl
  | call v => exact steps_valueForm .call hpc hm
  | jump v => exact steps_valueForm .jump hpc hm
  | branch k b c v => exact steps_valueForm (.branch k b c) hpc hm
  | push r =>
    refine steps_of_pieces hm rfl (by rintro _ ⟨rfl⟩; decide) ?_
    simp only [Machine.execute, Machine.advance, Machine.get_stackPointer_jumpTo,
      displaced_neg_four]
    rfl
  | pop r =>
    refine steps_of_pieces hm rfl (by rintro _ ⟨rfl⟩; decide) ?_
    simp only [Machine.execute, Machine.bump, Machine.advance, Machine.get_stackPointer_jumpTo,
      Machine.load_jumpTo, displaced_four]
    rfl
  | exchange s t =>
    refine steps_of_pieces hm rfl (by rintro _ ⟨⟩) ?_
    rw [Machine.execute, hget s (by simp [registers]), hget t (by simp [registers])]
    rfl
  | arith op s t =>
    exact steps_arith (hget s (by simp [registers])) (hget t (by simp [registers])) hm
  | logic op s t =>
    refine steps_of_pieces hm rfl (by rintro _ ⟨⟩) ?_
    rw [Machine.execute, hget s (by simp [registers]), hget t (by simp [registers])]
    rfl
  | complement r =>
    refine steps_of_pieces hm rfl (by rintro _ ⟨⟩) ?_
    rw [Machine.execute, hget r (by simp [registers])]
    rfl
  | shift op s t =>
    refine steps_of_pieces hm rfl (by rintro _ ⟨⟩) ?_
    rw [Machine.execute, hget s (by simp [registers]), hget t (by simp [registers]),
      Shift.apply_eq]
    rfl
  | readControl control t =>
    refine steps_of_pieces hm rfl (by rintro _ ⟨⟩) ?_
    rw [Machine.execute, Machine.advance, Machine.control_jumpTo]
    rfl
  | writeControl s control =>
    refine steps_of_pieces hm rfl (by rintro _ ⟨⟩) ?_
    rw [Machine.execute, hget s (by simp [registers])]
    rfl
  | load source t =>
    cases source with
    | immediate v => exact steps_valueForm (.loadValue t) hpc hm
    | place p =>
      cases p with
      | memory v => exact steps_valueForm (.loadWord t) hpc hm
      | register r =>
        refine steps_of_pieces hm rfl (by rintro _ ⟨rfl⟩; decide) ?_
        rw [Machine.execute, hget r (by simp [registers, Operand.registers, Place.registers]),
          Word.displaced_zero]
        rfl
      | indirect base d =>
        refine steps_of_pieces hm rfl (by rintro _ ⟨rfl⟩; exact hlegal) ?_
        rw [Machine.execute, hget base (by simp [registers, Operand.registers, Place.registers]),
          Machine.advance, Machine.load_jumpTo]
        rfl
  | store s target =>
    cases target with
    | memory v => exact steps_valueForm (.storeWord s) hpc hm
    | register r =>
      refine steps_of_pieces hm rfl (by rintro _ ⟨rfl⟩; decide) ?_
      rw [Machine.execute, hget s (by simp [registers]), Word.displaced_zero]
      rfl
    | indirect base d =>
      refine steps_of_pieces hm rfl (by rintro _ ⟨rfl⟩; exact hlegal) ?_
      rw [Machine.execute, Machine.address, hget s (by simp [registers]),
        hget base (by simp [registers, Place.registers]), Machine.get_zero, UInt32.add_zero]
      rfl

/-- The only operation that can fail is a division by zero. -/
theorem exists_perform (env : String → Word) (op : Operation) (m : Machine)
    (h : ∀ s t, op = .arith .div s t → m.get s ≠ 0) : ∃ after, op.perform env m = .ok after := by
  cases op with
  | arith op s t =>
    have hzero : ¬ (op = .div ∧ m.get s = 0) := fun hdiv => h s t (by rw [hdiv.1]) hdiv.2
    exact ⟨_, by rw [perform, if_neg hzero]⟩
  | load source t =>
    cases source with
    | immediate v => exact ⟨_, rfl⟩
    | place p => cases p <;> exact ⟨_, rfl⟩
  | store s target => cases target <;> exact ⟨_, rfl⟩
  | _ => exact ⟨_, rfl⟩

/-- Whatever line is written, executing the words of its operation leaves to be read what the
operation says, and is completed unless it divides by zero. -/
theorem steps_of_read {raw : String} {label : Option String} {op : Operation}
    (hread : Line.read raw = .ok ⟨label, some (.operation op)⟩)
    (hpc : .programCounter ∉ op.registers) (env : String → Word) (m : Machine)
    (hm : m.Holds m.pc (op.words env)) :
    (m.steps op.stepCount).map Machine.reading = op.meaning env m.reading ∧
      ((∀ s t, op = .arith .div s t → m.reading.register s.index ≠ 0) →
        ∃ after, m.steps op.stepCount = .ok after) := by
  have hlegal : op.Legal := (Line.legal_of_read hread).statement _ rfl
  have hsteps := steps_of_legal hlegal hpc hm
  refine ⟨by rw [hsteps, reading_perform], fun h => hsteps ▸ exists_perform env op m ?_⟩
  exact fun s t hdiv => m.get_eq_reading s ▸ h s t hdiv

/-- A load from memory whose address is a symbol, a store in the middle of a word, an exclusive or
and a software interrupt, with 12 in register 1 and 10 in register 2. -/
theorem steps_of_read_fourLines :
    let env : String → Word := fun _ => 0x40000000
    let holding (words : List (Word × Word)) : Machine :=
      ((Machine.start (.ofList words)).set ⟨1⟩ 12).set ⟨2⟩ 10
    let loads : Operation := .load (.place (.memory (.symbol "x"))) ⟨3⟩
    let stores : Operation := .store ⟨1⟩ (.indirect ⟨2⟩ 4)
    let combines : Operation := .logic .xor ⟨1⟩ ⟨2⟩
    let loading := holding [(0x40000000, 0x923F1000), (0x40000004, 0x00000040),
      (0x40000008, 0x92330000)]
    let storing := holding [(0x40000000, 0x80201004)]
    let combining := holding [(0x40000000, 0x63221000)]
    let interrupted := holding [(0x40000000, 0x10000000)]
    (Line.read "a: ld x, %r3" = .ok ⟨some "a", some (.operation loads)⟩ ∧
      loading.Holds loading.pc (loads.words env) ∧
      ∃ after, loading.steps 2 = .ok after ∧ after.reading.register 3 = 0x00103F92 ∧
        after.reading.register 15 = 0x4000000C) ∧
    (Line.read "st %r1, [%r2 + 4]" = .ok ⟨none, some (.operation stores)⟩ ∧
      storing.Holds storing.pc (stores.words env) ∧
      ∃ after, storing.steps 1 = .ok after ∧ after.reading.memory 12 = 12 ∧
        after.reading.memory 16 = 0) ∧
    (Line.read "xor %r1, %r2" = .ok ⟨none, some (.operation combines)⟩ ∧
      combining.Holds combining.pc (combines.words env) ∧
      ∃ after, combining.steps 1 = .ok after ∧ after.reading.register 2 = 6) ∧
    (Line.read "int" = .ok ⟨none, some (.operation .interrupt)⟩ ∧
      interrupted.Holds interrupted.pc (interrupt.words env) ∧
      ∃ after, interrupted.steps 1 = .ok after ∧ after.reading.memory 0xFFFFFFFC = 7 ∧
        after.reading.memory 0xFFFFFFF8 = 0x40000004 ∧ after.reading.control .status = 6 ∧
        after.reading.control .cause = 4) := by
  intro env holding loads stores combines loading storing combining interrupted
  have hload : Line.read "a: ld x, %r3" = .ok ⟨some "a", some (.operation loads)⟩ := rfl
  have hstore : Line.read "st %r1, [%r2 + 4]" = .ok ⟨none, some (.operation stores)⟩ := rfl
  have hxor : Line.read "xor %r1, %r2" = .ok ⟨none, some (.operation combines)⟩ := rfl
  have hint : Line.read "int" = .ok ⟨none, some (.operation .interrupt)⟩ := rfl
  have hloading : loading.Holds loading.pc (loads.words env) :=
    ⟨by decide +kernel, by decide +kernel, by decide +kernel, trivial⟩
  have hstoring : storing.Holds storing.pc (stores.words env) := ⟨by decide +kernel, trivial⟩
  have hcombining : combining.Holds combining.pc (combines.words env) :=
    ⟨by decide +kernel, trivial⟩
  have hinterrupted : interrupted.Holds interrupted.pc (interrupt.words env) :=
    ⟨by decide +kernel, trivial⟩
  refine ⟨⟨hload, hloading, ?_⟩, ⟨hstore, hstoring, ?_⟩, ⟨hxor, hcombining, ?_⟩,
    hint, hinterrupted, ?_⟩
  · obtain ⟨after, hsteps, hafter⟩ := Fallible.map_eq_ok.mp
      ((steps_of_read hload (by decide) env loading hloading).1.trans rfl)
    exact ⟨after, hsteps, by rw [hafter]; decide +kernel, by rw [hafter]; decide +kernel⟩
  · obtain ⟨after, hsteps, hafter⟩ := Fallible.map_eq_ok.mp
      ((steps_of_read hstore (by decide) env storing hstoring).1.trans rfl)
    exact ⟨after, hsteps, by rw [hafter]; decide +kernel, by rw [hafter]; decide +kernel⟩
  · obtain ⟨after, hsteps, hafter⟩ := Fallible.map_eq_ok.mp
      ((steps_of_read hxor (by decide) env combining hcombining).1.trans rfl)
    exact ⟨after, hsteps, by rw [hafter]; decide +kernel⟩
  · obtain ⟨after, hsteps, hafter⟩ := Fallible.map_eq_ok.mp
      ((steps_of_read hint (by decide) env interrupted hinterrupted).1.trans rfl)
    exact ⟨after, hsteps, by rw [hafter]; decide +kernel, by rw [hafter]; decide +kernel,
      by rw [hafter]; decide +kernel, by rw [hafter]; decide +kernel⟩

end Operation

end Toolchain32
