import Toolchain32.Source.Encoding
import Toolchain32.Proofs.MachineExecution

/-!
# Operations that take a value

Jumps, calls, and loads and stores at an address take a value, which stands inside the instruction
word when it is inline and in a word of its own otherwise. `ValueForm.effect` says what such an
operation does, `steps_of_inline` that its short form does it, and `steps_of_extended` that the
extended form does it too, except for a load of the program counter from memory and a store of the
program counter.
-/

namespace Toolchain32

def Value.eval (env : String → Word) : Value → Word
  | literal n => UInt32.ofInt n
  | symbol name => env name

def Piece.resolve (env : String → Word) : Piece → Word
  | word w => w
  | reference name => Word.pack (env name)

@[simp] theorem Value.resolve_piece (env : String → Word) (v : Value) :
    v.piece.resolve env = Word.pack (v.eval env) := by
  cases v <;> rfl

def Operation.words (env : String → Word) (op : Operation) : List Word :=
  op.pieces.map (Piece.resolve env)

namespace Value

variable {env : String → Word} {v : Value} {d : Int16}

theorem inline?_eq_some (h : v.inline? = some d) :
    ∃ n : Int, v = literal n ∧ (0 ≤ n ∧ n ≤ 0x7FF) ∧ d = Int16.ofInt n := by
  cases v with
  | symbol name => simp [inline?] at h
  | literal n =>
    simp only [inline?, Option.ite_none_right_eq_some, Option.some.injEq] at h
    exact ⟨n, rfl, h.1, h.2.symm⟩

theorem fits_of_inline (h : v.inline? = some d) : FitsDisplacement d := by
  obtain ⟨n, -, hn, rfl⟩ := inline?_eq_some h
  exact fitsDisplacement_of_inline hn

theorem displaced_of_inline (h : v.inline? = some d) : Word.displaced 0 d = v.eval env := by
  obtain ⟨n, rfl, hn, rfl⟩ := inline?_eq_some h
  rw [Word.displaced, toInt_ofInt_of_inline hn, UInt32.zero_add, eval]

end Value

@[simp] theorem Word.displaced_zero (base : Word) : Word.displaced base 0 = base := by
  simp [Word.displaced, show UInt32.ofInt 0 = 0 from rfl]

inductive ValueForm
  | call
  | jump
  | branch (condition : Condition) (b c : Register)
  | loadValue (target : Register)
  | loadWord (target : Register)
  | storeWord (source : Register)
  deriving DecidableEq, Repr

namespace ValueForm

def operation : ValueForm → Value → Operation
  | call, v => .call v
  | jump, v => .jump v
  | branch k b c, v => .branch k b c v
  | loadValue t, v => .load (.immediate v) t
  | loadWord t, v => .load (.place (.memory v)) t
  | storeWord s, v => .store s (.memory v)

def short : ValueForm → Int16 → Instruction
  | call, d => .call .zero .zero d
  | jump, d => .jump .always .zero .zero .zero d
  | branch k b c, d => .jump k .zero b c d
  | loadValue t, d => .move t .zero d
  | loadWord t, d => .load t .zero d
  | storeWord s, d => .store .zero .zero s d

def pool : ValueForm → Instruction
  | call => .callPool .programCounter .zero 0
  | jump => .jumpPool .always .programCounter .zero .zero 0
  | branch k b c => .jumpPool k .programCounter b c 0
  | loadValue t | loadWord t => .loadPool t .programCounter 0
  | storeWord s => .storePool .programCounter .zero s 0

def rest : ValueForm → List Instruction
  | loadWord t => [.load t t 0]
  | _ => []

def extendedSteps (f : ValueForm) : Nat := 1 + f.rest.length

def extendedSize (f : ValueForm) : Nat := 4 * (2 + f.rest.length)

/-- What the operation does with the value `v` when `next` is the address behind it. -/
def effect (f : ValueForm) (v next : Word) (m : Machine) : Machine :=
  let m := m.jumpTo next
  match f with
  | call => (m.push next).jumpTo v
  | jump => m.jumpTo v
  | branch k b c => if k.holds (m.get b) (m.get c) then m.jumpTo v else m
  | loadValue t => m.set t v
  | loadWord t => m.set t (m.load v)
  | storeWord s => m.store v (m.get s)

/-- Whether the extended form has the effect of the short one. A load from memory passes its address
through its target, where the program counter must not be, and a store happens before the program
counter has moved past the value, so that it must not be what is stored. -/
def Extensible : ValueForm → Prop
  | loadWord r | storeWord r => r ≠ .programCounter
  | call | jump | branch .. | loadValue _ => True

variable (f : ValueForm) {env : String → Word} {v : Value} {d : Int16} {m : Machine}

theorem pieces_of_inline (h : v.inline? = some d) :
    (f.operation v).pieces = [.word (f.short d).encode] := by
  cases f <;>
    simp [operation, short, Operation.pieces, Operation.loadPieces, Operation.storePieces,
      shortOrPool, h]

theorem pieces_of_extended (h : v.inline? = none) :
    (f.operation v).pieces =
      .word f.pool.encode :: v.piece :: f.rest.map (fun i => .word i.encode) := by
  cases f <;>
    simp [operation, pool, rest, Operation.pieces, Operation.loadPieces, Operation.storePieces,
      shortOrPool, h]

theorem displacement_short (d : Int16) : (f.short d).displacement? = some d := by
  cases f <;> rfl

theorem displacement_pool : f.pool.displacement? = some 0 := by
  cases f <;> rfl

theorem execute_short (h : v.inline? = some d) :
    m.advance.execute m.pc (f.short d) = (f.effect (v.eval env) (m.pc + 4) m, none) := by
  have hv : Word.displaced 0 d = v.eval env := Value.displaced_of_inline h
  cases f <;>
    simp [short, effect, Machine.execute, Machine.advance, Machine.call, Machine.address, hv,
      Condition.holds]

/-- The short form has the effect of the operation, for all registers. -/
theorem steps_of_inline (h : v.inline? = some d)
    (hm : m.Holds m.pc ((f.operation v).words env)) :
    m.steps 1 = .ok (f.effect (v.eval env) (m.pc + 4) m) := by
  rw [Operation.words, pieces_of_inline f h] at hm
  refine Machine.steps_of_fetch 0 ?_ hm.1 (execute_short f h)
  rw [displacement_short]
  rintro _ ⟨rfl⟩
  exact Value.fits_of_inline h

def poolEffect (f : ValueForm) (v : Word) (m : Machine) : Machine :=
  match f with
  | loadWord t => (m.jumpTo (m.pc + 8)).set t v
  | storeWord s => (m.jumpTo (m.pc + 8)).store v (m.advance.get s)
  | f => f.effect v (m.pc + 8) m

theorem execute_pool {a : Word} (ha : m.fetch (m.pc + 4) = Word.pack a) :
    m.advance.execute m.pc f.pool = (f.poolEffect a m, none) := by
  have hpc : m.advance.get .programCounter = m.pc + 4 := Machine.pc_jumpTo ..
  have hload : m.advance.load (m.pc + 4) = a := by
    rw [Machine.advance, Machine.load_jumpTo, Machine.load, ha, Word.unpack_pack]
  cases f with
  | storeWord s =>
    have hstore : (m.advance.store a (m.advance.get s)).advance =
        (m.jumpTo (m.pc + 8)).store a (m.advance.get s) := by
      rw [← Machine.advance_advance, Machine.advance, Machine.jumpTo_store, Machine.pc_store,
        ← Machine.advance]
    simp [pool, poolEffect, Machine.execute, Machine.address, hpc, hload, hstore]
  | _ =>
    simp [pool, poolEffect, effect, Machine.execute, Machine.advance_advance, Machine.call,
      Machine.address, hpc, hload, Condition.holds]

theorem steps_pool {a : Word} {words : List Word} (n : Nat)
    (hm : m.Holds m.pc (f.pool.encode :: Word.pack a :: words)) :
    m.steps (n + 1) = (f.poolEffect a m).steps n := by
  refine Machine.steps_of_fetch n ?_ hm.1 (execute_pool f hm.2.1)
  rw [displacement_pool]
  rintro _ ⟨rfl⟩
  decide

theorem poolEffect_eq_effect (h : f.Extensible) (hrest : f.rest = []) (a : Word) :
    f.poolEffect a m = f.effect a (m.pc + 8) m := by
  cases f with
  | storeWord s => simp [poolEffect, effect, Machine.advance, Machine.get_jumpTo _ _ h]
  | loadWord t => simp [rest] at hrest
  | _ => rfl

/-- The second step of a load from memory, which finds the address in the target. -/
theorem steps_loadWord_rest {t : Register} (h : t ≠ .programCounter) (a : Word)
    (hm : m.fetch (m.pc + 8) = (Instruction.load t t 0).encode) :
    ((loadWord t).poolEffect a m).steps 1 = .ok ((loadWord t).effect a (m.pc + 12) m) := by
  have hpc : ((m.jumpTo (m.pc + 8)).set t a).pc = m.pc + 8 := by
    rw [Machine.pc, Machine.get_set_of_ne _ _ h, ← Machine.pc, Machine.pc_jumpTo]
  have hnext : m.pc + 8 + 4 = m.pc + 12 := by rw [UInt32.add_assoc]; rfl
  have hadvance : ((m.jumpTo (m.pc + 8)).set t a).advance = (m.jumpTo (m.pc + 12)).set t a := by
    rw [Machine.advance, hpc, Machine.jumpTo_set _ _ _ h, Machine.jumpTo_jumpTo, hnext]
  refine Machine.steps_of_fetch (i := .load t t 0) 0 ?_ (by simpa [poolEffect, hpc] using hm) ?_
  · rintro _ ⟨rfl⟩
    decide
  simp only [poolEffect, hadvance, Machine.execute, Word.displaced_zero, Machine.load_set,
    Machine.set_set, effect]
  by_cases ht : t = .zero
  · simp [ht]
  · rw [Machine.get_set_self _ _ ht]

/-- The extended form has the effect of the operation. -/
theorem steps_of_extended (h : v.inline? = none) (hf : f.Extensible)
    (hm : m.Holds m.pc ((f.operation v).words env)) :
    m.steps f.extendedSteps =
      .ok (f.effect (v.eval env) (m.pc + UInt32.ofNat f.extendedSize) m) := by
  rw [Operation.words, pieces_of_extended f h, List.map_cons, List.map_cons, Piece.resolve,
    Value.resolve_piece] at hm
  have hpool := steps_pool f f.rest.length hm
  rw [extendedSteps, Nat.add_comm, hpool]
  cases f with
  | loadWord t =>
    refine steps_loadWord_rest hf _ ?_
    have hrest := Machine.fetch_of_holds hm (k := 2) rfl
    exact hrest
  | _ => exact congrArg Except.ok (poolEffect_eq_effect _ hf rfl _)

end ValueForm

end Toolchain32
