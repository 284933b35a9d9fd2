import Toolchain32.Proofs.ValueForms

/-!
# Inline and extended operands

A small value may be written as a literal, which stands inside the instruction word, or as a symbol,
which gets a word of its own. `WidthsAgree` says that it makes no difference which of the two is
executed, and `widthsAgree_iff` that this is so for every operation but a load of the program
counter from memory and a store of the program counter.
-/

namespace Toolchain32

namespace Machine

structure AgreeOutside (own : List Word) (m₁ m₂ : Machine) : Prop where
  registers : ∀ r, m₁.get r = m₂.get r
  controls : m₁.controls = m₂.controls
  memory : ∀ a ∉ own, m₁.memory.get? a = m₂.memory.get? a

namespace AgreeOutside

variable {own : List Word} {m₁ m₂ : Machine}

theorem load (h : AgreeOutside own m₁ m₂) {a : Word} (ha : Word.aligned a ∉ own) :
    m₁.load a = m₂.load a := by
  rw [Machine.load, Machine.load, fetch, fetch, h.memory _ ha]

theorem set (h : AgreeOutside own m₁ m₂) (r : Register) (v : Word) :
    AgreeOutside own (m₁.set r v) (m₂.set r v) where
  registers s := by rw [get_set, get_set, h.registers s]
  controls := by rw [controls_set, controls_set, h.controls]
  memory a ha := by rw [memory_set, memory_set, h.memory a ha]

theorem jumpTo (h : AgreeOutside own m₁ m₂) (a : Word) :
    AgreeOutside own (m₁.jumpTo a) (m₂.jumpTo a) := h.set .programCounter a

theorem store (h : AgreeOutside own m₁ m₂) (a v : Word) :
    AgreeOutside own (m₁.store a v) (m₂.store a v) where
  registers := h.registers
  controls := h.controls
  memory b hb := by
    change (m₁.memory.set _ _).get? b = (m₂.memory.set _ _).get? b
    rw [Image.get?_set, Image.get?_set, h.memory b hb]

theorem push (h : AgreeOutside own m₁ m₂) (v : Word) :
    AgreeOutside own (m₁.push v) (m₂.push v) := by
  rw [Machine.push, Machine.push, h.registers]
  exact (h.set ..).store ..

end AgreeOutside

end Machine

namespace ValueForm

variable (f : ValueForm)

/-- The addresses of the words of the extended form that ends at `e`. The short form stands at the
last of them. -/
def ownWords (e : Word) : List Word :=
  (List.range (2 + f.rest.length)).map fun k => Word.aligned (e - 4 * UInt32.ofNat (k + 1))

/-- Two machines with the same registers, control registers and memory, except that the first one
stands at the short form of an operation on the number `n`, and the second one at the extended form
that it has for a symbol of that value. Both forms end at `e`. -/
structure Paired (env : String → Word) (n : Int) (name : String) (e : Word)
    (m₁ m₂ : Machine) : Prop where
  address : env name = UInt32.ofInt n
  registers : ∀ r, r ≠ .programCounter → m₁.get r = m₂.get r
  controls : m₁.controls = m₂.controls
  memory : ∀ a ∉ f.ownWords e, m₁.memory.get? a = m₂.memory.get? a
  operand : Word.aligned (UInt32.ofInt n) ∉ f.ownWords e
  shortEnd : m₁.pc + 4 = e
  shortHeld : m₁.Holds m₁.pc ((f.operation (.literal n)).words env)
  extendedEnd : m₂.pc + UInt32.ofNat f.extendedSize = e
  extendedHeld : m₂.Holds m₂.pc ((f.operation (.symbol name)).words env)

def WidthsAgree (n : Int) : Prop :=
  ∀ env name e m₁ m₂, f.Paired env n name e m₁ m₂ →
    ∃ after₁ after₂, m₁.steps 1 = .ok after₁ ∧ m₂.steps f.extendedSteps = .ok after₂ ∧
      Machine.AgreeOutside (f.ownWords e) after₁ after₂ ∧
      after₁.halted = m₁.halted ∧ after₂.halted = m₂.halted

variable {f} {env : String → Word} {n : Int} {name : String} {e : Word} {m₁ m₂ : Machine}

theorem halted_effect (v e : Word) (m : Machine) : (f.effect v e m).halted = m.halted := by
  cases f with
  | branch k b c => simp only [effect]; split <;> simp [Machine.jumpTo]
  | _ => simp [effect, Machine.jumpTo, Machine.push, Machine.store]

theorem agree_effect {own : List Word} {v : Word}
    (h : Machine.AgreeOutside own (m₁.jumpTo e) (m₂.jumpTo e)) (hv : Word.aligned v ∉ own) :
    Machine.AgreeOutside own (f.effect v e m₁) (f.effect v e m₂) := by
  cases f with
  | call => exact (h.push e).jumpTo v
  | jump => exact h.jumpTo v
  | branch k b c =>
    simp only [effect, h.registers]
    split
    · exact h.jumpTo v
    · exact h
  | loadValue t => exact h.set t v
  | loadWord t =>
    simp only [effect, h.load hv]
    exact h.set t _
  | storeWord s =>
    simp only [effect, h.registers]
    exact h.store v _

theorem Paired.agree (h : f.Paired env n name e m₁ m₂) :
    Machine.AgreeOutside (f.ownWords e) (m₁.jumpTo e) (m₂.jumpTo e) where
  registers r := by
    by_cases hr : r = .programCounter
    · subst hr
      exact (Machine.pc_jumpTo m₁ e).trans (Machine.pc_jumpTo m₂ e).symm
    · rw [Machine.get_jumpTo _ _ hr, Machine.get_jumpTo _ _ hr, h.registers r hr]
  controls := by
    rw [Machine.jumpTo, Machine.controls_set, Machine.jumpTo, Machine.controls_set, h.controls]
  memory a ha := by
    rw [Machine.jumpTo, Machine.memory_set, Machine.jumpTo, Machine.memory_set, h.memory a ha]

theorem inline?_literal (hn : 0 ≤ n ∧ n ≤ 0x7FF) :
    (Value.literal n).inline? = some (Int16.ofInt n) := if_pos hn

theorem Paired.steps_short (h : f.Paired env n name e m₁ m₂) (hn : 0 ≤ n ∧ n ≤ 0x7FF) :
    m₁.steps 1 = .ok (f.effect (UInt32.ofInt n) e m₁) := by
  rw [steps_of_inline f (inline?_literal hn) h.shortHeld, h.shortEnd]
  rfl

theorem Paired.steps_extended (h : f.Paired env n name e m₁ m₂) (hf : f.Extensible) :
    m₂.steps f.extendedSteps = .ok (f.effect (UInt32.ofInt n) e m₂) := by
  rw [steps_of_extended f rfl hf h.extendedHeld, h.extendedEnd, Value.eval, h.address]

theorem widthsAgree_of_extensible (hn : 0 ≤ n ∧ n ≤ 0x7FF) (hf : f.Extensible) :
    f.WidthsAgree n := fun _ _ _ _ _ h =>
  ⟨_, _, h.steps_short hn, h.steps_extended hf, agree_effect h.agree h.operand,
    halted_effect .., halted_effect ..⟩

def extendedWords (f : ValueForm) (v : Word) : List Word :=
  f.pool.encode :: Word.pack v :: f.rest.map Instruction.encode

theorem words_short (hn : 0 ≤ n ∧ n ≤ 0x7FF) :
    (f.operation (.literal n)).words env = [(f.short (Int16.ofInt n)).encode] := by
  rw [Operation.words, pieces_of_inline f (inline?_literal hn)]
  rfl

theorem words_extended :
    (f.operation (.symbol name)).words env = f.extendedWords (env name) := by
  rw [Operation.words, pieces_of_extended f rfl, extendedWords]
  simp [Piece.resolve, Value.piece, Function.comp_def]

def standing (address : Word) (memory : List (Word × Word)) : Machine :=
  (Machine.start (.ofList memory)).jumpTo address

theorem fetch_standing (address a : Word) (memory : List (Word × Word)) :
    (standing address memory).fetch a = ((Image.ofList memory).get? (Word.aligned a)).getD 0 :=
  Machine.fetch_jumpTo ..

theorem get_standing (a b : Word) (memory words : List (Word × Word)) {r : Register}
    (hr : r ≠ .programCounter) : (standing a memory).get r = (standing b words).get r := by
  rw [standing, standing, Machine.get_jumpTo _ _ hr, Machine.get_jumpTo _ _ hr]
  rfl

theorem aligned_small (hn : 0 ≤ n ∧ n ≤ 0x7FF) :
    (Word.aligned (UInt32.ofInt n)).toNat < 0x800 := by
  have h : (UInt32.ofInt n).toNat < 0x800 := by
    rw [UInt32.ofInt, UInt32.toNat_ofNat']
    omega
  rw [Word.toNat_aligned]
  omega

theorem paired_standing (hn : 0 ≤ n ∧ n ≤ 0x7FF) {a : Word} {memory : List (Word × Word)}
    (hlast : 0x40000008 ∈ f.ownWords 0x4000000C)
    (hlow : ∀ b ∈ f.ownWords 0x4000000C, 0x800 ≤ b.toNat)
    (hkeys : ∀ b ∉ f.ownWords 0x4000000C, (Image.ofList memory).get? b = none)
    (hend : a + UInt32.ofNat f.extendedSize = 0x4000000C)
    (hheld : (standing a memory).Holds a (f.extendedWords (UInt32.ofInt n))) :
    f.Paired (fun _ => UInt32.ofInt n) n "x" 0x4000000C
      (standing 0x40000008 [(0x40000008, (f.short (Int16.ofInt n)).encode)])
      (standing a memory) where
  address := rfl
  registers _ hr := get_standing _ _ _ _ hr
  controls := by
    rw [standing, standing, Machine.jumpTo, Machine.controls_set, Machine.jumpTo,
      Machine.controls_set]
    rfl
  memory b hb := by
    have hne : (0x40000008 : Word) ≠ b := fun h => hb (h ▸ hlast)
    rw [standing, standing, Machine.jumpTo, Machine.memory_set, Machine.jumpTo,
      Machine.memory_set]
    change (Image.ofList _).get? b = (Image.ofList _).get? b
    rw [hkeys b hb]
    simp [Image.ofList, Image.setAll, Image.get?_set, hne]
  operand h := by
    have hlarge := hlow _ h
    have hsmall := aligned_small hn
    omega
  shortEnd := by
    rw [standing, Machine.pc_jumpTo]
    rfl
  shortHeld := by
    have haligned : Word.aligned 0x40000008 = 0x40000008 := by decide
    rw [words_short hn]
    refine ⟨?_, trivial⟩
    rw [fetch_standing, standing, Machine.pc_jumpTo, haligned]
    simp [Image.ofList, Image.setAll, Image.get?_set]
  extendedEnd := by rw [standing, Machine.pc_jumpTo, hend]
  extendedHeld := by
    rw [words_extended, standing, Machine.pc_jumpTo]
    exact hheld

theorem ownWords_loadWord (t : Register) :
    (loadWord t).ownWords 0x4000000C = [0x40000008, 0x40000004, 0x40000000] := by
  change List.map _ [0, 1, 2] = _
  decide

theorem ownWords_storeWord (s : Register) :
    (storeWord s).ownWords 0x4000000C = [0x40000008, 0x40000004] := by
  change List.map _ [0, 1] = _
  decide

/-- Machines at the two forms of a load from memory whose operand is a word never written. -/
theorem exists_paired_loadWord (t : Register) (hn : 0 ≤ n ∧ n ≤ 0x7FF) :
    ∃ m₁ m₂, (loadWord t).Paired (fun _ => UInt32.ofInt n) n "x" 0x4000000C m₁ m₂ ∧
      m₂.halted = false ∧ m₂.fetch (UInt32.ofInt n) = 0 := by
  let memory : List (Word × Word) := [(0x40000000, (loadWord t).pool.encode),
    (0x40000004, Word.pack (UInt32.ofInt n)), (0x40000008, (Instruction.load t t 0).encode)]
  have hown := ownWords_loadWord t
  have hkeys : ∀ b ∉ (loadWord t).ownWords 0x4000000C, (Image.ofList memory).get? b = none := by
    intro b hb
    rw [hown] at hb
    simp only [List.mem_cons, List.not_mem_nil, or_false, not_or] at hb
    simp [memory, Image.ofList, Image.setAll, Image.get?_set, Ne.symm hb.1, Ne.symm hb.2.1,
      Ne.symm hb.2.2]
  have hheld : (standing 0x40000000 memory).Holds 0x40000000
      ((loadWord t).extendedWords (UInt32.ofInt n)) := by
    refine ⟨?_, ?_, ?_, trivial⟩ <;> rw [fetch_standing]
    · rw [show Word.aligned 0x40000000 = 0x40000000 by decide]
      simp [memory, Image.ofList, Image.setAll, Image.get?_set]
    · rw [show Word.aligned (0x40000000 + 4) = 0x40000004 by decide]
      simp [memory, Image.ofList, Image.setAll, Image.get?_set]
    · rw [show Word.aligned (0x40000000 + 4 + 4) = 0x40000008 by decide]
      simp [memory, Image.ofList, Image.setAll, Image.get?_set]
  have hlast : 0x40000008 ∈ (loadWord t).ownWords 0x4000000C := by simp [hown]
  have hlow : ∀ b ∈ (loadWord t).ownWords 0x4000000C, 0x800 ≤ b.toNat := by simp [hown]
  have hpaired := paired_standing hn hlast hlow hkeys rfl hheld
  refine ⟨_, _, hpaired, ?_, ?_⟩
  · rw [standing, Machine.jumpTo, Machine.halted_set]
    rfl
  · rw [fetch_standing, hkeys _ hpaired.operand]
    rfl

theorem exists_paired_storeWord (s : Register) (hn : 0 ≤ n ∧ n ≤ 0x7FF) :
    ∃ m₁ m₂, (storeWord s).Paired (fun _ => UInt32.ofInt n) n "x" 0x4000000C m₁ m₂ := by
  let memory : List (Word × Word) := [(0x40000004, (storeWord s).pool.encode),
    (0x40000008, Word.pack (UInt32.ofInt n))]
  have hown := ownWords_storeWord s
  have hkeys : ∀ b ∉ (storeWord s).ownWords 0x4000000C, (Image.ofList memory).get? b = none := by
    intro b hb
    rw [hown] at hb
    simp only [List.mem_cons, List.not_mem_nil, or_false, not_or] at hb
    simp [memory, Image.ofList, Image.setAll, Image.get?_set, Ne.symm hb.1, Ne.symm hb.2]
  have hheld : (standing 0x40000004 memory).Holds 0x40000004
      ((storeWord s).extendedWords (UInt32.ofInt n)) := by
    refine ⟨?_, ?_, trivial⟩ <;> rw [fetch_standing]
    · rw [show Word.aligned 0x40000004 = 0x40000004 by decide]
      simp [memory, Image.ofList, Image.setAll, Image.get?_set]
    · rw [show Word.aligned (0x40000004 + 4) = 0x40000008 by decide]
      simp [memory, Image.ofList, Image.setAll, Image.get?_set]
  have hlast : 0x40000008 ∈ (storeWord s).ownWords 0x4000000C := by simp [hown]
  have hlow : ∀ b ∈ (storeWord s).ownWords 0x4000000C, 0x800 ≤ b.toNat := by simp [hown]
  exact ⟨_, _, paired_standing hn hlast hlow hkeys rfl hheld⟩

/-- The extended load of the program counter continues at the operand, and not at the word that
stands there. -/
theorem steps_loadWord_programCounter {m : Machine} {a : Word}
    (hm : m.Holds m.pc ((loadWord .programCounter).extendedWords a)) (ha : m.fetch a = 0) :
    ∃ after, m.steps 2 = .ok after ∧ after.halted = true := by
  have hpool := steps_pool (loadWord .programCounter) 1 hm
  have hpc : ((loadWord .programCounter).poolEffect a m).pc = a := Machine.pc_jumpTo ..
  refine ⟨_, hpool.trans (Machine.steps_of_fetch (i := .halt) 0 (by rintro _ ⟨⟩) ?_ rfl), rfl⟩
  rw [hpc, poolEffect, Machine.fetch_set, Machine.fetch_jumpTo, ha]
  decide

theorem not_widthsAgree_loadWord (hn : 0 ≤ n ∧ n ≤ 0x7FF) :
    ¬ (loadWord .programCounter).WidthsAgree n := by
  intro h
  obtain ⟨m₁, m₂, hpaired, hrunning, hempty⟩ := exists_paired_loadWord .programCounter hn
  obtain ⟨_, after₂, -, hsteps, -, -, hhalted⟩ := h _ _ _ _ _ hpaired
  have hheld := hpaired.extendedHeld
  rw [words_extended] at hheld
  obtain ⟨after, hafter, hhalt⟩ := steps_loadWord_programCounter hheld hempty
  have heq : after₂ = after := Except.ok.inj (hsteps.symm.trans hafter)
  rw [← heq, hhalted, hrunning] at hhalt
  cases hhalt

/-- The extended store of the program counter stores the address of its operand word, and the short
one the address behind the instruction. -/
theorem not_widthsAgree_storeWord (hn : 0 ≤ n ∧ n ≤ 0x7FF) :
    ¬ (storeWord .programCounter).WidthsAgree n := by
  intro h
  obtain ⟨m₁, m₂, hpaired⟩ := exists_paired_storeWord .programCounter hn
  obtain ⟨after₁, after₂, hshort, hextended, hagree, -⟩ := h _ _ _ _ _ hpaired
  have hheld := hpaired.extendedHeld
  rw [words_extended] at hheld
  have hafter₁ : after₁ = (storeWord .programCounter).effect (UInt32.ofInt n) 0x4000000C m₁ :=
    Except.ok.inj (hshort.symm.trans (hpaired.steps_short hn))
  have hafter₂ : after₂ = (storeWord .programCounter).poolEffect (UInt32.ofInt n) m₂ :=
    Except.ok.inj (hextended.symm.trans (steps_pool _ 0 hheld))
  have hstored := hagree.memory _ hpaired.operand
  rw [hafter₁, hafter₂, effect, poolEffect, Machine.memory_store_self,
    Machine.memory_store_self] at hstored
  have hpc₁ : (m₁.jumpTo 0x4000000C).get .programCounter = 0x4000000C := Machine.pc_jumpTo ..
  have hpc₂ : m₂.advance.get .programCounter = m₂.pc + 4 := Machine.pc_jumpTo ..
  rw [hpc₁, hpc₂] at hstored
  have hvalue : 0x4000000C = m₂.pc + 4 := Word.pack_inj (Option.some.inj hstored)
  have hend : m₂.pc + 4 + 4 = 0x4000000C := by
    rw [UInt32.add_assoc]
    exact hpaired.extendedEnd
  rw [← hvalue] at hend
  revert hend
  decide

/-- Which operations do not care about the width of their operand. -/
theorem widthsAgree_iff (f : ValueForm) (n : Int) (hn : 0 ≤ n ∧ n ≤ 0x7FF) :
    f.WidthsAgree n ↔ f.Extensible := by
  refine ⟨fun h => ?_, widthsAgree_of_extensible hn⟩
  cases f with
  | loadWord t =>
    rintro rfl
    exact not_widthsAgree_loadWord hn h
  | storeWord s =>
    rintro rfl
    exact not_widthsAgree_storeWord hn h
  | _ => trivial

theorem widthsAgree_iff_at_256 :
    ((0 : Int) ≤ 0x100 ∧ (0x100 : Int) ≤ 0x7FF) ∧ jump.WidthsAgree 0x100 ∧
      ¬ (storeWord .programCounter).WidthsAgree 0x100 :=
  ⟨by decide, (widthsAgree_iff jump 0x100 (by decide)).mpr trivial,
    fun h => (widthsAgree_iff _ 0x100 (by decide)).mp h rfl⟩

end ValueForm

end Toolchain32
