import Toolchain32.Machine.Report
import Toolchain32.Proofs.AlignedRegions
import Toolchain32.Proofs.MachineExecution

/-!
# Memory as an array of words

A machine reads and writes whole words, and a word that is missing from its image reads zero. What
an image holds at other addresses, and which zero words it spells, makes no difference to a run:
machines that agree on the words go on to agree. Two executions are compared through `Simulation`,
the conditions under which a relation between machines is kept by every instruction.
-/

namespace Toolchain32

theorem Word.isAligned_aligned (w : Word) : (aligned w).IsAligned := by
  rw [IsAligned, toNat_aligned]
  exact Nat.dvd_mul_left ..

/-- An image that became another one by writes to words: nothing is removed, and whatever is added
or changed is at an aligned address. -/
structure Image.GrowsTo (before after : Image) : Prop where
  kept : ∀ a, (before.get? a).isSome → (after.get? a).isSome
  aligned : ∀ a, after.get? a ≠ before.get? a → a.IsAligned

namespace Image.GrowsTo

variable {before image after : Image}

theorem refl (image : Image) : image.GrowsTo image := ⟨fun _ h => h, fun _ h => absurd rfl h⟩

theorem set (h : before.GrowsTo image) {a : Word} (ha : a.IsAligned) (v : Word) :
    before.GrowsTo (image.set a v) where
  kept b hb := by
    rw [get?_set]
    split
    · rfl
    · exact h.kept b hb
  aligned b hb := by
    rw [get?_set] at hb
    by_cases hab : a = b
    · exact hab ▸ ha
    · rw [if_neg hab] at hb
      exact h.aligned b hb

end Image.GrowsTo

namespace Machine

structure Simulation (R : Machine → Machine → Prop) : Prop where
  get {m m' : Machine} (hR : R m m') (r : Register) : m.get r = m'.get r
  control {m m' : Machine} (hR : R m m') (c : ControlRegister) : m.control c = m'.control c
  fetch {m m' : Machine} (hR : R m m') (a : Word) : m.fetch a = m'.fetch a
  set {m m' : Machine} (hR : R m m') (r : Register) (v : Word) : R (m.set r v) (m'.set r v)
  setControl {m m' : Machine} (hR : R m m') (c : ControlRegister) (v : Word) :
    R (m.setControl c v) (m'.setControl c v)
  store {m m' : Machine} (hR : R m m') (a v : Word) : R (m.store a v) (m'.store a v)
  halt {m m' : Machine} (hR : R m m') : R { m with halted := true } { m' with halted := true }

namespace Simulation

variable {R : Machine → Machine → Prop} {m m' : Machine} (h : Simulation R) (hR : R m m')

include h hR

theorem load (a : Word) : m.load a = m'.load a := by rw [Machine.load, h.fetch hR, Machine.load]

theorem pc : m.pc = m'.pc := h.get hR _

theorem address (a b : Register) (d : Int16) : m.address a b d = m'.address a b d := by
  rw [Machine.address, h.get hR, h.get hR, Machine.address]

theorem jumpTo (a : Word) : R (m.jumpTo a) (m'.jumpTo a) := h.set hR _ a

theorem advance : R m.advance m'.advance := by
  rw [Machine.advance, h.pc hR]
  exact h.jumpTo hR _

theorem push (v : Word) : R (m.push v) (m'.push v) := by
  rw [Machine.push, h.get hR]
  exact h.store (h.set hR _ _) _ v

theorem bump (r : Register) (d : Int16) : R (m.bump r d) (m'.bump r d) := by
  rw [Machine.bump, h.get hR]
  exact h.set hR r _

theorem pushCounter : R (m.push m.pc) (m'.push m'.pc) := by
  rw [h.pc hR]
  exact h.push hR _

theorem call (target : Word) : R (m.call target) (m'.call target) :=
  h.jumpTo (h.pushCounter hR) target

theorem interrupt : R m.interrupt m'.interrupt := by
  have hstatus : R (m.push (m.control .status)) (m'.push (m'.control .status)) := by
    rw [h.control hR]
    exact h.push hR _
  have hdisable {n n' : Machine} (hn : R n n') :
      R (n.setControl .status (interruptsOff (n.control .status)))
        (n'.setControl .status (interruptsOff (n'.control .status))) := by
    rw [h.control hn]
    exact h.setControl hn _ _
  have henter {n n' : Machine} (hn : R n n') :
      R (n.jumpTo (n.control .handler)) (n'.jumpTo (n'.control .handler)) := by
    rw [h.control hn]
    exact h.jumpTo hn _
  exact henter (hdisable (h.setControl (h.pushCounter hstatus) .cause softwareCause))

theorem popControl (c : ControlRegister) (b : Register) (d : Int16) :
    R (m.popControl c b d) (m'.popControl c b d) := by
  simp only [Machine.popControl]
  rw [h.get hR, h.load hR]
  exact h.setControl (h.bump hR b d) c _

theorem popPartner (a : Register) (value : Word) :
    (m.popPartner a value).2 = (m'.popPartner a value).2 ∧
      R (m.popPartner a value).1 (m'.popPartner a value).1 := by
  simp only [Machine.popPartner]
  rw [h.pc hR, h.fetch hR]
  split
  · exact ⟨rfl, h.set (h.popControl (h.advance hR) ..) ..⟩
  · exact ⟨rfl, h.advance hR⟩
  · exact ⟨rfl, h.advance hR⟩

/-- Every instruction is completed by both machines or traps in both alike. -/
theorem execute (at_ : Word) (i : Instruction) :
    (m.execute at_ i).2 = (m'.execute at_ i).2 ∧
      R (m.execute at_ i).1 (m'.execute at_ i).1 := by
  have hadvance := h.advance hR
  cases i with
  | halt => exact ⟨rfl, h.halt hR⟩
  | interrupt => exact ⟨rfl, h.interrupt hR⟩
  | call a b d =>
    simp only [Machine.execute, h.address hR]
    exact ⟨trivial, h.call hR _⟩
  | callPool a b d =>
    simp only [Machine.execute, h.address hR, h.load hR]
    exact ⟨trivial, h.call hadvance _⟩
  | jump k a b c d =>
    simp only [Machine.execute, h.get hR, true_and]
    split
    · exact h.jumpTo hR _
    · exact hR
  | jumpPool k a b c d =>
    simp only [Machine.execute, h.get hR, h.load hR, h.get hadvance, true_and]
    split
    · exact h.jumpTo hadvance _
    · exact hadvance
  | exchange b c =>
    simp only [Machine.execute, h.get hR]
    exact ⟨trivial, h.set (h.set hR _ _) _ _⟩
  | arith op a b c =>
    simp only [Machine.execute, h.get hR]
    split
    · exact ⟨rfl, h.set hR _ _⟩
    · exact ⟨rfl, hR⟩
  | logic op a b c | shift op a b c | move a b d =>
    simp only [Machine.execute, h.get hR]
    exact ⟨trivial, h.set hR _ _⟩
  | store a b c d =>
    simp only [Machine.execute, h.address hR, h.get hR]
    exact ⟨trivial, h.store hR _ _⟩
  | push a c d =>
    simp only [Machine.execute, h.get hR]
    have htarget := h.set hR a (Word.displaced (m'.get a) d)
    rw [h.get htarget]
    exact ⟨trivial, h.store htarget _ _⟩
  | storePool a b c d =>
    simp only [Machine.execute, h.address hR, h.load hR, h.get hR]
    exact ⟨trivial, h.advance (h.store hR _ _)⟩
  | readControl a s =>
    simp only [Machine.execute, h.control hR]
    exact ⟨trivial, h.set hR _ _⟩
  | load a b d =>
    simp only [Machine.execute, h.get hR, h.load hR]
    exact ⟨trivial, h.set hR _ _⟩
  | loadPool a b d =>
    simp only [Machine.execute, h.get hR, h.load hR]
    exact ⟨trivial, h.set hadvance _ _⟩
  | pop a b d =>
    simp only [Machine.execute, h.get hR, h.load hR]
    exact ⟨trivial, h.set (h.bump hR b d) _ _⟩
  | popFused a b d =>
    simp only [Machine.execute, h.get hR, h.load hR]
    exact h.popPartner (h.bump hR b d) a _
  | writeControl s b | moveControl s b d =>
    simp only [Machine.execute, h.get hR]
    exact ⟨trivial, h.setControl hR _ _⟩
  | loadControl s b c d =>
    simp only [Machine.execute, h.address hR, h.load hR]
    exact ⟨trivial, h.setControl hR _ _⟩
  | popControl s b d => exact ⟨rfl, h.popControl hR s b d⟩

theorem step : m.step.2 = m'.step.2 ∧ R m.step.1 m'.step.1 := by
  simp only [Machine.step]
  rw [h.pc hR, h.fetch hR]
  split
  · exact ⟨rfl, h.advance hR⟩
  · next i hi =>
    obtain ⟨houtcome, hafter⟩ := h.execute (h.advance hR) m'.pc i
    generalize m.advance.execute m'.pc i = p at houtcome hafter ⊢
    generalize m'.advance.execute m'.pc i = p' at houtcome hafter ⊢
    obtain ⟨after, trap⟩ := p
    obtain ⟨after', trap'⟩ := p'
    cases houtcome
    cases trap <;> exact ⟨rfl, hafter⟩

end Simulation

/-- The machine after so many steps, each of them taken whatever became of the one before. -/
def after : Nat → Machine → Machine
  | 0, m => m
  | n + 1, m => m.step.1.after n

def outcomes : Nat → Machine → List (Except Trap Retired)
  | 0, _ => []
  | n + 1, m => m.step.2 :: m.step.1.outcomes n

theorem after_add (m : Machine) (k n : Nat) : m.after (k + n) = (m.after k).after n := by
  induction k generalizing m with
  | zero => rw [Nat.zero_add, after]
  | succ k ih => rw [Nat.succ_add, after, after, ih]

theorem Simulation.after {R : Machine → Machine → Prop} (h : Simulation R) {m m' : Machine}
    (hR : R m m') (n : Nat) :
    m.outcomes n = m'.outcomes n ∧ R (m.after n) (m'.after n) := by
  induction n generalizing m m' with
  | zero => exact ⟨rfl, hR⟩
  | succ n ih =>
    obtain ⟨houtcome, hstep⟩ := h.step hR
    obtain ⟨houtcomes, hafter⟩ := ih hstep
    rw [outcomes, outcomes, houtcome, houtcomes]
    exact ⟨rfl, hafter⟩

theorem simulation_growsTo (image : Image) :
    Simulation fun m m' => m = m' ∧ image.GrowsTo m.memory where
  get hR _ := by rw [hR.1]
  control hR _ := by rw [hR.1]
  fetch hR _ := by rw [hR.1]
  set hR r v := ⟨by rw [hR.1], by rw [memory_set]; exact hR.2⟩
  setControl hR c v := ⟨by rw [hR.1], hR.2⟩
  store hR a v := ⟨by rw [hR.1], hR.2.set (Word.isAligned_aligned a) _⟩
  halt hR := ⟨by rw [hR.1], hR.2⟩

/-- Between any two moments of a run, the image is only written in whole words. -/
theorem growsTo_after (m : Machine) {k n : Nat} (h : k ≤ n) :
    (m.after k).memory.GrowsTo (m.after n).memory := by
  obtain ⟨j, rfl⟩ := Nat.exists_eq_add_of_le h
  rw [after_add]
  exact ((simulation_growsTo _).after ⟨rfl, .refl _⟩ j).2.2

/-- Two machines with the same registers whose images have the same word at every aligned address,
where a missing one counts as zero. -/
structure Agrees (m m' : Machine) : Prop where
  registers : ∀ r, m.get r = m'.get r
  controls : m.controls = m'.controls
  halted : m.halted = m'.halted
  memory : ∀ a : Word, a.IsAligned → (m.memory.get? a).getD 0 = (m'.memory.get? a).getD 0

variable {m m' : Machine}

theorem agrees_of_fetch (hregisters : ∀ r, m.get r = m'.get r) (hcontrols : m.controls = m'.controls)
    (hhalted : m.halted = m'.halted) (hfetch : ∀ a, m.fetch a = m'.fetch a) : m.Agrees m' := by
  refine ⟨hregisters, hcontrols, hhalted, fun a ha => ?_⟩
  have hword := hfetch a
  rwa [fetch, fetch, Word.aligned_eq_self ha] at hword

theorem Agrees.fetch (h : m.Agrees m') (a : Word) : m.fetch a = m'.fetch a :=
  h.memory _ (Word.isAligned_aligned a)

theorem simulation_agrees : Simulation Agrees where
  get h := h.registers
  control h c := by rw [control, h.controls, control]
  fetch h := h.fetch
  set h r v := agrees_of_fetch (fun s => by rw [get_set, get_set, h.registers])
    (by rw [controls_set, controls_set, h.controls]) (by rw [halted_set, halted_set, h.halted])
    (fun a => by rw [fetch_set, fetch_set, h.fetch])
  setControl h c v := ⟨h.registers, congrArg (·.set c v) h.controls, h.halted, h.memory⟩
  store h a v := agrees_of_fetch h.registers h.controls h.halted
    (fun b => by rw [fetch_store, fetch_store, h.fetch])
  halt h := ⟨h.registers, h.controls, rfl, h.memory⟩

theorem Agrees.report (h : m.Agrees m') : m.report = m'.report := by
  have hcell : m.reportCell = m'.reportCell := by
    funext r
    rw [reportCell, reportCell, h.registers]
  rw [Machine.report, Machine.report, hcell]

/-- Machines that agree on the words of their memories have the same runs: step by step the same
words are completed at the same addresses or the same traps taken, whatever they do to the program
itself. A run removes no word from an image, and adds and changes words at aligned addresses
only. -/
theorem agrees_after (h : m.Agrees m') (n : Nat) :
    m.outcomes n = m'.outcomes n ∧ (m.after n).Agrees (m'.after n) ∧
      (m.after n).report = (m'.after n).report ∧
      ∀ k ≤ n, (m.after k).memory.GrowsTo (m.after n).memory ∧
        (m'.after k).memory.GrowsTo (m'.after n).memory := by
  obtain ⟨houtcomes, hafter⟩ := simulation_agrees.after h n
  exact ⟨houtcomes, hafter, hafter.report, fun k hk =>
    ⟨growsTo_after m hk, growsTo_after m' hk⟩⟩

/-- A push into the last word of memory. Only the first image spells that word, and only the first
one has a word at an odd address. -/
theorem agrees_after_push :
    let word := (Instruction.push .stackPointer ⟨1, by decide⟩ (-4)).encode
    let m := start (.ofList [(0x40000000, word), (0xFFFFFFFC, 0), (0x101, 5)])
    let m' := start (.ofList [(0x40000000, word)])
    m.Agrees m' ∧ m.memory ≠ m'.memory ∧ m.outcomes 2 = m'.outcomes 2 ∧
      (m.after 2).Agrees (m'.after 2) := by
  intro word m m'
  have hdiffer : m.memory.get? 0x101 ≠ m'.memory.get? 0x101 := by decide +kernel +revert
  have hmemory (a : Word) (ha : a.IsAligned) :
      (m.memory.get? a).getD 0 = (m'.memory.get? a).getD 0 := by
    have hodd : (0x101 : Word) ≠ a := by
      rintro rfl
      exact absurd ha (by decide)
    simp only [m, m', start, Image.ofList, Image.setAll, List.foldl_cons, List.foldl_nil,
      Image.get?_set, Image.get?_empty, if_neg hodd]
    by_cases hlast : (0xFFFFFFFC : Word) = a
    · subst hlast
      decide
    · rw [if_neg hlast]
  have hagrees : m.Agrees m' := ⟨fun _ => rfl, rfl, rfl, hmemory⟩
  obtain ⟨houtcomes, hafter, -, -⟩ := agrees_after hagrees 2
  exact ⟨hagrees, fun h => hdiffer (congrArg (·.get? 0x101) h), houtcomes, hafter⟩

end Machine

end Toolchain32
