import Toolchain32.Proofs.ValueForms

/-!
# Steps that trap

A step traps exactly if the machine is stuck: its word is no instruction, it divides by zero, or it
is a fused pop without a partner. A trapped step leaves the machine as it was, except for the
program counter and for the base register of a fused pop, which has moved on by then:
`step_trapped_iff`.
-/

namespace Toolchain32

theorem Arith.result?_eq_none_iff (op : Arith) (v w : Word) :
    op.result? v w = none ↔ op = .div ∧ w = 0 := by
  cases op <;> simp [Arith.result?]

theorem Word.displaced_eq_self_iff {w : Word} {d : Int16} : displaced w d = w ↔ d = 0 := by
  constructor
  · intro h
    have hzero : UInt32.ofInt d.toInt = 0 := by
      have hsub := congrArg (· - w) h
      simpa [displaced, UInt32.add_comm w] using hsub
    have hmod : d.toInt % 2 ^ 32 = 0 := by
      have hnat := congrArg UInt32.toNat hzero
      rw [UInt32.ofInt, UInt32.toNat_ofNat', UInt32.toNat_zero] at hnat
      omega
    have hlt := d.toInt_lt
    have hle := d.le_toInt
    apply Int16.toInt_inj.mp
    change d.toInt = 0
    omega
  · rintro rfl
    exact displaced_zero w

namespace Machine

variable {m m' after : Machine} {a b c : Register} {d : Int16} {at_ value : Word}
  {i : Instruction} {trap : Trap}

/-- Where a fused pop looks for its partner: behind it, unless the pop moves the program counter. -/
def partnerAddress (m : Machine) (b : Register) (d : Int16) : Word :=
  if b = .programCounter then Word.displaced (m.pc + 4) d else m.pc + 4

def IsPartner (m : Machine) (address : Word) : Prop :=
  ∃ s b d, Instruction.decode (m.fetch address) = .ok (.popControl s b d)

/-- The next step cannot be completed. A divisor is read when the program counter is already behind
the instruction. -/
inductive Stuck (m : Machine) : Prop
  | undecodable (e : DecodeError) (h : Instruction.decode (m.fetch m.pc) = .error e)
  | zeroDivisor (a b c : Register)
      (h : Instruction.decode (m.fetch m.pc) = .ok (.arith .div a b c))
      (hzero : m.advance.get c = 0)
  | unpaired (a b : Register) (d : Int16)
      (h : Instruction.decode (m.fetch m.pc) = .ok (.popFused a b d))
      (hpartner : ¬ m.IsPartner (m.partnerAddress b d))

theorem partnerAddress_eq : (m.advance.bump b d).pc = m.partnerAddress b d := by
  have hpc : m.advance.get .programCounter = m.pc + 4 := pc_jumpTo ..
  unfold partnerAddress bump
  by_cases hb : b = .programCounter
  · subst hb
    rw [if_pos rfl, hpc]
    exact pc_jumpTo ..
  · rw [if_neg hb, pc, get_set_of_ne _ _ hb, hpc]

theorem isPartner_bump_advance {address : Word} :
    (m.advance.bump b d).IsPartner address ↔ m.IsPartner address := by
  simp only [IsPartner, bump, advance, fetch_set, fetch_jumpTo]

theorem popPartner_trap_iff : (∃ trap, m.popPartner a value = (after, some trap)) ↔
    ¬ m.IsPartner m.pc ∧ after = m.advance := by
  unfold popPartner IsPartner
  cases hdecode : Instruction.decode (m.fetch m.pc) with
  | error e => simp [hdecode, eq_comm]
  | ok i => cases i <;> simp [hdecode, eq_comm]

/-- Once they are decoded, only divisions and fused pops can trap. -/
theorem execute_trap_iff : (∃ trap, m.execute at_ i = (after, some trap)) ↔
    (∃ a b c, i = .arith .div a b c ∧ m.get c = 0 ∧ after = m) ∨
      ∃ a b d, i = .popFused a b d ∧ ¬ (m.bump b d).IsPartner (m.bump b d).pc ∧
        after = (m.bump b d).advance := by
  cases i with
  | arith op a b c =>
    have hresult := Arith.result?_eq_none_iff op (m.get b) (m.get c)
    simp only [execute]
    cases h : op.result? (m.get b) (m.get c) with
    | none =>
      obtain ⟨rfl, hzero⟩ := hresult.mp h
      constructor
      · rintro ⟨trap, heq⟩
        exact .inl ⟨a, b, c, rfl, hzero, (congrArg Prod.fst heq).symm⟩
      · rintro (⟨_, _, _, -, -, rfl⟩ | ⟨_, _, _, hi, -⟩)
        · exact ⟨_, rfl⟩
        · cases hi
    | some value =>
      rw [h] at hresult
      constructor
      · rintro ⟨trap, heq⟩
        cases congrArg Prod.snd heq
      · rintro (⟨_, _, _, hi, hzero, -⟩ | ⟨_, _, _, hi, -⟩)
        · cases hi
          cases hresult.mpr ⟨rfl, hzero⟩
        · cases hi
  | popFused a b d =>
    rw [execute, popPartner_trap_iff]
    constructor
    · rintro ⟨hpartner, hafter⟩
      exact .inr ⟨a, b, d, rfl, hpartner, hafter⟩
    · rintro (⟨_, _, _, hi, -⟩ | ⟨_, _, _, hi, hpartner, hafter⟩)
      · cases hi
      · cases hi
        exact ⟨hpartner, hafter⟩
  | _ => simp [execute]

/-- What a trapped step leaves behind. -/
theorem step_eq_error_iff : (∃ trap, m.step = (after, .error trap)) ↔
    ((∃ e, Instruction.decode (m.fetch m.pc) = .error e) ∧ after = m.advance) ∨
      (∃ a b c, Instruction.decode (m.fetch m.pc) = .ok (.arith .div a b c) ∧
        m.advance.get c = 0 ∧ after = m.advance) ∨
      ∃ a b d, Instruction.decode (m.fetch m.pc) = .ok (.popFused a b d) ∧
        ¬ m.IsPartner (m.partnerAddress b d) ∧ after = (m.advance.bump b d).advance := by
  cases hdecode : Instruction.decode (m.fetch m.pc) with
  | error e => simp [step, hdecode, eq_comm]
  | ok i =>
    have hstep : (∃ trap, m.step = (after, .error trap)) ↔
        ∃ trap, m.advance.execute m.pc i = (after, some trap) := by
      simp only [step, hdecode]
      rcases m.advance.execute m.pc i with ⟨m', _ | trap⟩ <;> simp
    rw [hstep, execute_trap_iff]
    simp only [partnerAddress_eq, isPartner_bump_advance, Except.ok.injEq, reduceCtorEq,
      exists_false, false_and, false_or]

theorem exists_error_iff_stuck : (∃ trap, m.step.2 = .error trap) ↔ m.Stuck := by
  have hpair : (∃ trap, m.step.2 = .error trap) ↔
      ∃ after trap, m.step = (after, .error trap) :=
    ⟨fun ⟨trap, h⟩ => ⟨m.step.1, trap, Prod.ext rfl h⟩, fun ⟨_, trap, h⟩ => ⟨trap, by rw [h]⟩⟩
  simp only [hpair, step_eq_error_iff]
  constructor
  · rintro ⟨_, ⟨⟨e, h⟩, -⟩ | ⟨a, b, c, h, hzero, -⟩ | ⟨a, b, d, h, hpartner, -⟩⟩
    · exact .undecodable e h
    · exact .zeroDivisor a b c h hzero
    · exact .unpaired a b d h hpartner
  · rintro (⟨e, h⟩ | ⟨a, b, c, h, hzero⟩ | ⟨a, b, d, h, hpartner⟩)
    · exact ⟨_, .inl ⟨⟨e, h⟩, rfl⟩⟩
    · exact ⟨_, .inr (.inl ⟨a, b, c, h, hzero, rfl⟩)⟩
    · exact ⟨_, .inr (.inr ⟨a, b, d, h, hpartner, rfl⟩)⟩

structure SameApartFromCounter (m m' : Machine) : Prop where
  registers : ∀ r, r ≠ .programCounter → m.get r = m'.get r
  controls : m.controls = m'.controls
  memory : m.memory = m'.memory
  halted : m.halted = m'.halted

def popped (m : Machine) : Machine :=
  match Instruction.decode (m.fetch m.pc) with
  | .ok (.popFused _ b d) => m.bump b d
  | _ => m

/-- The next instruction is a fused pop that moves another register than the program counter. -/
def PopsFused (m : Machine) : Prop :=
  ∃ a b d, Instruction.decode (m.fetch m.pc) = .ok (.popFused a b d) ∧ b ≠ .zero ∧
    b ≠ .programCounter ∧ d ≠ 0

theorem SameApartFromCounter.jumpTo (h : SameApartFromCounter m m') (v : Word) :
    SameApartFromCounter (m.jumpTo v) m' where
  registers r hr := (get_jumpTo m v hr).trans (h.registers r hr)
  controls := (controls_set ..).trans h.controls
  memory := (memory_set ..).trans h.memory
  halted := (halted_set ..).trans h.halted

theorem sameApartFromCounter_bump (b : Register) (d : Int16) :
    SameApartFromCounter (m.advance.bump b d) (m.bump b d) := by
  refine ⟨fun r hr => ?_, ?_, ?_, ?_⟩
  · by_cases hb : b = r
    · subst hb
      simp only [bump, get_set, advance, get_jumpTo m _ hr]
    · rw [bump, bump, get_set_of_ne _ _ hb, get_set_of_ne _ _ hb, advance, get_jumpTo m _ hr]
  · simp only [bump, advance, jumpTo, controls_set]
  · simp only [bump, advance, jumpTo, memory_set]
  · simp only [bump, advance, jumpTo, halted_set]

theorem SameApartFromCounter.refl (m : Machine) : SameApartFromCounter m m :=
  ⟨fun _ _ => rfl, rfl, rfl, rfl⟩

theorem SameApartFromCounter.symm (h : SameApartFromCounter m m') : SameApartFromCounter m' m :=
  ⟨fun r hr => (h.registers r hr).symm, h.controls.symm, h.memory.symm, h.halted.symm⟩

theorem SameApartFromCounter.trans (h : SameApartFromCounter m m')
    (h' : SameApartFromCounter m' after) : SameApartFromCounter m after :=
  ⟨fun r hr => (h.registers r hr).trans (h'.registers r hr), h.controls.trans h'.controls,
    h.memory.trans h'.memory, h.halted.trans h'.halted⟩

theorem sameApartFromCounter_bump_iff : SameApartFromCounter (m.bump b d) m ↔
    b = .zero ∨ b = .programCounter ∨ d = 0 := by
  constructor
  · intro h
    by_cases hzero : b = .zero
    · exact .inl hzero
    by_cases hcounter : b = .programCounter
    · exact .inr (.inl hcounter)
    have hb := h.registers b hcounter
    rw [bump, get_set_self _ _ hzero, Word.displaced_eq_self_iff] at hb
    exact .inr (.inr hb)
  · rintro (rfl | rfl | rfl)
    · rw [bump, set_zero]
      exact .refl m
    · exact (SameApartFromCounter.refl m).jumpTo _
    · refine ⟨fun r _ => ?_, controls_set .., memory_set .., halted_set ..⟩
      rw [bump, Word.displaced_zero, get_set]
      by_cases hr : r = .zero
      · rw [if_pos hr, hr, get_zero]
      · by_cases hb : b = r
        · rw [if_neg hr, if_pos hb, hb]
        · rw [if_neg hr, if_neg hb]

theorem sameApartFromCounter_popped_iff : SameApartFromCounter m.popped m ↔ ¬ m.PopsFused := by
  by_cases hfused : ∃ a b d, Instruction.decode (m.fetch m.pc) = .ok (.popFused a b d)
  · obtain ⟨a, b, d, h⟩ := hfused
    have hpopped : m.popped = m.bump b d := by simp only [popped, h]
    have hpops : m.PopsFused ↔ b ≠ .zero ∧ b ≠ .programCounter ∧ d ≠ 0 := by
      simp only [PopsFused, h, Except.ok.injEq, Instruction.popFused.injEq, and_assoc,
        exists_eq_left', exists_and_left]
    rw [hpopped, hpops, sameApartFromCounter_bump_iff]
    simp only [Decidable.not_and_iff_not_or_not, Decidable.not_not, ne_eq]
  · have hpopped : m.popped = m := by
      unfold popped
      split
      next a b d h => exact absurd ⟨a, b, d, h⟩ hfused
      next => rfl
    rw [hpopped]
    exact ⟨fun _ ⟨a, b, d, h, _⟩ => hfused ⟨a, b, d, h⟩, fun _ => .refl m⟩

theorem Stuck.sameApartFromCounter (h : m.Stuck) : SameApartFromCounter m.step.1 m.popped := by
  obtain ⟨trap, htrap⟩ := exists_error_iff_stuck.mpr h
  have hstep : m.step = (m.step.1, .error trap) := Prod.ext rfl htrap
  have hcases := step_eq_error_iff.mp ⟨trap, hstep⟩
  obtain ⟨⟨e, hdecode⟩, hafter⟩ | ⟨a, b, c, hdecode, -, hafter⟩ |
    ⟨a, b, d, hdecode, -, hafter⟩ := hcases
  · simp only [hafter, popped, hdecode]
    exact (SameApartFromCounter.refl m).jumpTo _
  · simp only [hafter, popped, hdecode]
    exact (SameApartFromCounter.refl m).jumpTo _
  · simp only [hafter, popped, hdecode]
    exact (sameApartFromCounter_bump b d).jumpTo _

/-- A step traps exactly if the machine is stuck. Apart from the program counter it then changes
nothing but the base register of a fused pop, which it does change unless the base is the zero
register or the program counter itself, or moves on by nothing. -/
theorem step_trapped_iff (m : Machine) :
    ((∃ trap, m.step.2 = .error trap) ↔ m.Stuck) ∧
      (m.Stuck → SameApartFromCounter m.step.1 m.popped ∧
        (SameApartFromCounter m.step.1 m ↔ ¬ m.PopsFused)) := by
  refine ⟨exists_error_iff_stuck, fun h => ⟨h.sameApartFromCounter, ?_⟩⟩
  rw [← sameApartFromCounter_popped_iff]
  exact ⟨h.sameApartFromCounter.symm.trans, h.sameApartFromCounter.trans⟩

/-- A fused pop from the stack at `0x100`, at the place where execution begins, with nothing behind
it. -/
theorem step_trapped_iff_unpaired :
    let b : Register := ⟨2, by decide⟩
    let m := (start (.ofList [(0x40000000, 0x93121004)])).set b 0x100
    m.Stuck ∧ SameApartFromCounter m.step.1 m.popped ∧ m.PopsFused ∧
      ¬ SameApartFromCounter m.step.1 m ∧ m.step.1.get b = 0x104 := by
  intro b m
  let i : Instruction := .popFused ⟨1, by decide⟩ b 4
  have hword : m.fetch m.pc = i.encode := by decide +kernel +revert
  have hnext : m.fetch (m.partnerAddress b 4) = 0 := by decide +kernel +revert
  have hbase : m.step.1.get b = 0x104 := by decide +kernel +revert
  have hdecode : Instruction.decode (m.fetch m.pc) = .ok i := by
    rw [hword]
    exact Instruction.decode_encode_of_fits (by rintro _ ⟨rfl⟩; decide)
  have hpartner : ¬ m.IsPartner (m.partnerAddress b 4) := by
    rintro ⟨s, b', d, h⟩
    rw [hnext] at h
    cases h
  have hstuck : m.Stuck := .unpaired _ b 4 hdecode hpartner
  have hpops : m.PopsFused := ⟨_, b, 4, hdecode, by decide, by decide, by decide⟩
  obtain ⟨hpopped, hkept⟩ := (step_trapped_iff m).2 hstuck
  exact ⟨hstuck, hpopped, hpops, fun h => hkept.mp h hpops, hbase⟩

end Machine

end Toolchain32
