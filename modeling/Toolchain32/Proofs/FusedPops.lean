import Toolchain32.Proofs.CallReturns
import Toolchain32.Proofs.OperandWidths

/-!
# Fused pops

A fused pop retires in one step with the control pop behind it. As long as neither of them writes
the program counter as a register or the word that fuses them is read as data, it makes no
difference whether the pair is fused or its pops are executed one after the other: both ways lead to
`PopPair.popBoth`, so that the machines they leave agree (`PopPair.fused_agrees_plain`).
-/

namespace Toolchain32

namespace Machine

variable {m : Machine} {a v : Word} {b r : Register} {d : Int16} {c : ControlRegister}

@[simp] theorem halted_setControl : (m.setControl c v).halted = m.halted := rfl

theorem setControl_set : (m.setControl c v).set r a = (m.set r a).setControl c v := by
  unfold set
  split <;> rfl

theorem bump_jumpTo (hb : b ≠ .programCounter) :
    (m.jumpTo a).bump b d = (m.bump b d).jumpTo a := by
  rw [bump, bump, get_jumpTo _ _ hb, jumpTo_set _ _ _ hb]

theorem popControl_jumpTo (hb : b ≠ .programCounter) :
    (m.jumpTo a).popControl c b d = (m.popControl c b d).jumpTo a := by
  rw [popControl, popControl, get_jumpTo _ _ hb, load_jumpTo, bump_jumpTo hb, jumpTo_setControl]

/-- A control pop does not read the registers other than its base. -/
theorem popControl_set (hr : r ≠ b) :
    (m.set r v).popControl c b d = (m.popControl c b d).set r v := by
  have hbump : (m.set r v).bump b d = (m.bump b d).set r v := by
    rw [bump, bump, get_set_of_ne _ _ hr, set_comm _ _ _ hr]
  rw [popControl, popControl, get_set_of_ne _ _ hr, load_set, hbump, setControl_set]

namespace AgreeOutside

variable {own : List Word} {m₁ m₂ : Machine}

/-- A machine and the same machine with another word at an address. -/
theorem replace (m : Machine) (a w : Word) :
    AgreeOutside [a] m { m with memory := m.memory.set a w } where
  registers _ := rfl
  controls := rfl
  memory b hb := by
    have hne : a ≠ b := fun heq => hb (heq ▸ List.mem_singleton_self a)
    rw [Image.get?_set, if_neg hne]

theorem bump (h : AgreeOutside own m₁ m₂) (b : Register) (d : Int16) :
    AgreeOutside own (m₁.bump b d) (m₂.bump b d) := by
  rw [Machine.bump, Machine.bump, h.registers]
  exact h.set ..

theorem setControl (h : AgreeOutside own m₁ m₂) (c : ControlRegister) (v : Word) :
    AgreeOutside own (m₁.setControl c v) (m₂.setControl c v) where
  registers := h.registers
  controls := congrArg (·.set c v) h.controls
  memory := h.memory

theorem popControl (h : AgreeOutside own m₁ m₂) (hread : Word.aligned (m₁.get b) ∉ own)
    (c : ControlRegister) (d : Int16) :
    AgreeOutside own (m₁.popControl c b d) (m₂.popControl c b d) := by
  have hvalue : m₁.load (m₁.get b) = m₂.load (m₂.get b) := by
    rw [← h.registers, h.load hread]
  rw [Machine.popControl, Machine.popControl, hvalue]
  exact (h.bump b d).setControl c _

end AgreeOutside

end Machine

structure PopPair where
  target : Register
  base : Register
  offset : Int16
  control : ControlRegister
  controlBase : Register
  controlOffset : Int16
  deriving DecidableEq, Repr

namespace PopPair

open Machine

variable (p : PopPair)

def plain : Instruction := .pop p.target p.base p.offset

def fused : Instruction := .popFused p.target p.base p.offset

def partner : Instruction := .popControl p.control p.controlBase p.controlOffset

/-- No operand is the program counter, and the value that is popped first is not the address of the
second pop. -/
structure Separate : Prop where
  target : p.target ≠ .programCounter
  base : p.base ≠ .programCounter
  controlBase : p.controlBase ≠ .programCounter
  apart : p.target ≠ p.controlBase

def popBoth (m : Machine) : Machine :=
  (((m.bump p.base p.offset).popControl p.control p.controlBase p.controlOffset).set p.target
    (m.load (m.get p.base))).jumpTo (m.pc + 8)

variable {p} {m : Machine}

theorem steps_fused (hp : p.Separate) (hfused : Instruction.decode (m.fetch m.pc) = .ok p.fused)
    (hpartner : Instruction.decode (m.fetch (m.pc + 4)) = .ok p.partner) :
    m.steps 1 = .ok (p.popBoth m) := by
  have hbump : m.advance.bump p.base p.offset = (m.bump p.base p.offset).jumpTo (m.pc + 4) :=
    bump_jumpTo hp.base
  have hdecode : Instruction.decode ((m.advance.bump p.base p.offset).fetch
      (m.advance.bump p.base p.offset).pc) = .ok p.partner := by
    rwa [hbump, pc_jumpTo, fetch_jumpTo, bump, fetch_set]
  have hvalue : m.advance.load (m.advance.get p.base) = m.load (m.get p.base) := by
    rw [advance, load_jumpTo, get_jumpTo _ _ hp.base]
  refine steps_of_decode 0 hfused ?_
  rw [fused, execute, popPartner_of_decode _ hdecode, hvalue, hbump, advance, pc_jumpTo,
    jumpTo_jumpTo, Operation.add_four_add_four, popControl_jumpTo hp.controlBase,
    ← jumpTo_set _ _ _ hp.target]
  rfl

theorem steps_plain (hp : p.Separate) (hplain : Instruction.decode (m.fetch m.pc) = .ok p.plain)
    (hpartner : Instruction.decode (m.fetch (m.pc + 4)) = .ok p.partner) :
    m.steps 2 = .ok (p.popBoth m) := by
  let value := m.load (m.get p.base)
  let popped := ((m.bump p.base p.offset).set p.target value).jumpTo (m.pc + 4)
  have hpop : m.advance.execute m.pc p.plain = (popped, none) := by
    rw [plain, execute, advance, load_jumpTo, get_jumpTo _ _ hp.base, bump_jumpTo hp.base,
      ← jumpTo_set _ _ _ hp.target]
  have hdecode : Instruction.decode (popped.fetch popped.pc) = .ok p.partner := by
    rwa [pc_jumpTo, fetch_jumpTo, fetch_set, bump, fetch_set]
  rw [steps_of_decode 1 hplain hpop]
  refine steps_of_decode 0 hdecode ?_
  rw [partner, execute, advance, pc_jumpTo, jumpTo_jumpTo, Operation.add_four_add_four,
    popControl_jumpTo hp.controlBase, popControl_set hp.apart]
  rfl

variable (p)

/-- Two machines at a pair of pops, which they have in memory but for the word at the program
counter: that one is fused in the first machine and plain in the second. Neither pop reads it. -/
structure Paired (m₁ m₂ : Machine) : Prop where
  agree : AgreeOutside [Word.aligned m₁.pc] m₁ m₂
  halted : m₁.halted = m₂.halted
  fused : Instruction.decode (m₁.fetch m₁.pc) = .ok p.fused
  plain : Instruction.decode (m₂.fetch m₂.pc) = .ok p.plain
  partner : Instruction.decode (m₁.fetch (m₁.pc + 4)) = .ok p.partner
  first : Word.aligned (m₁.get p.base) ≠ Word.aligned m₁.pc
  second : Word.aligned ((m₁.bump p.base p.offset).get p.controlBase) ≠ Word.aligned m₁.pc

variable {p} {m₁ m₂ : Machine}

theorem agree_popBoth (h : p.Paired m₁ m₂) :
    AgreeOutside [Word.aligned m₁.pc] (p.popBoth m₁) (p.popBoth m₂) := by
  have hpc : m₁.pc = m₂.pc := h.agree.registers .programCounter
  have hvalue : m₁.load (m₁.get p.base) = m₂.load (m₂.get p.base) := by
    rw [← h.agree.registers, h.agree.load (by simpa using h.first)]
  have hpops := (h.agree.bump p.base p.offset).popControl (by simpa using h.second) p.control
    p.controlOffset
  have hboth := (hpops.set p.target (m₁.load (m₁.get p.base))).jumpTo (m₁.pc + 8)
  unfold popBoth
  rwa [← hvalue, ← hpc]

theorem halted_popBoth (m : Machine) : (p.popBoth m).halted = m.halted := by
  simp [popBoth, popControl, bump, jumpTo]

/-- The partner is not the word at the program counter, so that both machines have it. -/
theorem Paired.partner_right (h : p.Paired m₁ m₂) :
    Instruction.decode (m₂.fetch (m₂.pc + 4)) = .ok p.partner := by
  have hpc : m₁.pc = m₂.pc := h.agree.registers .programCounter
  have hne : Word.aligned (m₁.pc + 4) ≠ Word.aligned m₁.pc := by
    have hsub := Word.aligned_sub_four_ne (m₁.pc + 4)
    rw [UInt32.add_sub_cancel] at hsub
    exact hsub.symm
  have hfetch : m₂.fetch (m₂.pc + 4) = m₁.fetch (m₁.pc + 4) := by
    rw [← hpc, fetch, fetch, h.agree.memory _ (by simpa using hne)]
  rw [hfetch, h.partner]

/-- One step at the fused pair and two steps at the plain one are completed, and lead to machines
that differ at most in the word that fuses them. -/
theorem fused_agrees_plain (hp : p.Separate) (h : p.Paired m₁ m₂) :
    ∃ n₁ n₂, m₁.steps 1 = .ok n₁ ∧ m₂.steps 2 = .ok n₂ ∧
      AgreeOutside [Word.aligned m₁.pc] n₁ n₂ ∧ n₁.halted = n₂.halted := by
  refine ⟨_, _, steps_fused hp h.fused h.partner, steps_plain hp h.plain h.partner_right,
    agree_popBoth h, ?_⟩
  rw [halted_popBoth, halted_popBoth, h.halted]

/-- Two pops off one stack, the first of them into a register that both of them leave alone. -/
theorem fused_agrees_plain_oneStack :
    let p : PopPair := ⟨⟨1, by decide⟩, .stackPointer, 4, .status, .stackPointer, 4⟩
    let m₁ := (Machine.start (.ofList [(0x40000000, p.fused.encode), (0x40000004, p.partner.encode),
      (0x100, 0x05000000), (0x104, 0x06000000)])).set .stackPointer 0x100
    let m₂ : Machine := { m₁ with memory := m₁.memory.set 0x40000000 p.plain.encode }
    p.Separate ∧ p.Paired m₁ m₂ ∧ ∃ n₁ n₂, m₁.steps 1 = .ok n₁ ∧ m₂.steps 2 = .ok n₂ ∧
      AgreeOutside [Word.aligned m₁.pc] n₁ n₂ ∧ n₁.halted = n₂.halted := by
  intro p m₁ m₂
  have hpc : Word.aligned m₁.pc = 0x40000000 := by decide +kernel +revert
  have hfused : m₁.fetch m₁.pc = p.fused.encode := by decide +kernel +revert
  have hplain : m₂.fetch m₂.pc = p.plain.encode := by decide +kernel +revert
  have hpartner : m₁.fetch (m₁.pc + 4) = p.partner.encode := by decide +kernel +revert
  have hfirst : Word.aligned (m₁.get p.base) ≠ Word.aligned m₁.pc := by decide +kernel +revert
  have hsecond : Word.aligned ((m₁.bump p.base p.offset).get p.controlBase) ≠
      Word.aligned m₁.pc := by decide +kernel +revert
  have hdecode {i : Instruction} (hi : i.displacement? = some 4) :
      Instruction.decode i.encode = .ok i :=
    Instruction.decode_encode_of_fits (by rw [hi]; rintro _ ⟨rfl⟩; decide)
  have hp : p.Separate := ⟨by decide, by decide, by decide, by decide⟩
  have hpaired : p.Paired m₁ m₂ :=
    { agree := hpc ▸ AgreeOutside.replace m₁ 0x40000000 p.plain.encode
      halted := rfl
      fused := hfused ▸ hdecode rfl
      plain := hplain ▸ hdecode rfl
      partner := hpartner ▸ hdecode rfl
      first := hfirst
      second := hsecond }
  exact ⟨hp, hpaired, fused_agrees_plain hp hpaired⟩

end PopPair

end Toolchain32
