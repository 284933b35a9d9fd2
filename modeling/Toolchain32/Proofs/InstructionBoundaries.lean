import Toolchain32.Proofs.LegalLines
import Toolchain32.Proofs.ValueForms

/-!
# Where instructions begin

Which words own the word behind them is known to the encoder, to the decoder and to the machine.
`segments?` walks over pieces by the decoder's account. The walk over an operation finds its
instructions, with the operation's value behind those that have an operand word, and ends where the
size says; and a step goes on behind the operand word of an instruction that has one, unless it is
sent elsewhere: `boundaries_agree`.
-/

namespace Toolchain32

structure Segment where
  word : Word
  instruction : Instruction
  operand : Option Piece
  deriving DecidableEq, Repr

namespace Segment

def pieces (s : Segment) : List Piece := .word s.word :: s.operand.toList

structure Sound (s : Segment) : Prop where
  decodes : Instruction.decode s.word = .ok s.instruction
  owns : s.instruction.hasOperandWord = s.operand.isSome

def encoded (i : Instruction) (value : Option Value) : Segment :=
  ⟨i.encode, i, value.map Value.piece⟩

theorem sound_encoded {i : Instruction} {value : Option Value}
    (hi : ∀ d ∈ i.displacement?, FitsDisplacement d) (hvalue : i.hasOperandWord = value.isSome) :
    (encoded i value).Sound where
  decodes := Instruction.decode_encode_of_fits hi
  owns := by
    rw [encoded, Option.isSome_map]
    exact hvalue

end Segment

/-- The segments of pieces, the first of which is taken for an instruction. There are none if a
reference is reached as an instruction, if a word is no instruction or if an operand is missing. -/
def segments? : List Piece → Option (List Segment)
  | [] => some []
  | .reference _ :: _ => none
  | .word w :: rest =>
    match Instruction.decode w with
    | .error _ => none
    | .ok i =>
      if i.hasOperandWord then
        match rest with
        | [] => none
        | operand :: rest => (segments? rest).map (⟨w, i, some operand⟩ :: ·)
      else (segments? rest).map (⟨w, i, none⟩ :: ·)

theorem segments?_append {s : Segment} (h : s.Sound) (rest : List Piece) :
    segments? (s.pieces ++ rest) = (segments? rest).map (s :: ·) := by
  obtain ⟨w, i, operand⟩ := s
  obtain ⟨hdecode, howns⟩ := h
  cases operand with
  | none =>
    have hplain : i.hasOperandWord = false := howns
    simp [Segment.pieces, segments?, hdecode, hplain]
  | some operand =>
    have howner : i.hasOperandWord = true := howns
    simp [Segment.pieces, segments?, hdecode, howner]

/-- The walk takes apart what sound segments are put together to. -/
theorem segments?_flatMap {segments : List Segment} (h : ∀ s ∈ segments, s.Sound) :
    segments? (segments.flatMap Segment.pieces) = some segments := by
  induction segments with
  | nil => rfl
  | cons s rest ih =>
    rw [List.forall_mem_cons] at h
    rw [List.flatMap_cons, segments?_append h.1, ih h.2]
    rfl

namespace ValueForm

def segments (f : ValueForm) (v : Value) : List Segment :=
  match v.inline? with
  | some d => [.encoded (f.short d) none]
  | none => .encoded f.pool (some v) :: f.rest.map (.encoded · none)

variable (f : ValueForm) (v : Value)

theorem pieces_eq_flatMap :
    (f.operation v).pieces = (f.segments v).flatMap Segment.pieces := by
  unfold segments
  cases h : v.inline? with
  | some d => exact pieces_of_inline f h
  | none =>
    rw [pieces_of_extended f h]
    cases f <;> rfl

theorem sound_of_mem_segments : ∀ s ∈ f.segments v, s.Sound := by
  unfold segments
  cases h : v.inline? with
  | some d =>
    have hfits : ∀ d' ∈ (f.short d).displacement?, FitsDisplacement d' := by
      rw [displacement_short]
      rintro _ ⟨rfl⟩
      exact Value.fits_of_inline h
    refine List.forall_mem_singleton.mpr (Segment.sound_encoded hfits ?_)
    cases f <;> rfl
  | none =>
    have hfits : ∀ d ∈ f.pool.displacement?, FitsDisplacement d := by
      rw [displacement_pool]
      rintro _ ⟨rfl⟩
      decide
    refine List.forall_mem_cons.mpr ⟨?_, ?_⟩
    · apply Segment.sound_encoded hfits
      cases f <;> rfl
    · refine List.forall_mem_map.mpr ?_
      intro i hi
      cases f with
      | loadWord t =>
        obtain rfl := List.mem_singleton.mp hi
        apply Segment.sound_encoded _ rfl
        rintro _ ⟨rfl⟩
        decide
      | _ => cases hi

theorem operands_segments : (f.segments v).filterMap (·.operand) =
    if v.inline?.isSome then [] else [v.piece] := by
  unfold segments
  cases h : v.inline? with
  | some d => rfl
  | none => cases f <;> rfl

end ValueForm

namespace Operation

def segments : Operation → List Segment
  | halt => [.encoded .halt none]
  | interrupt => [.encoded .interrupt none]
  | interruptReturn =>
    [.encoded (.popFused .programCounter .stackPointer 4) none,
      .encoded (.popControl .status .stackPointer 4) none]
  | subroutineReturn => [.encoded (.pop .programCounter .stackPointer 4) none]
  | call v => ValueForm.call.segments v
  | jump v => ValueForm.jump.segments v
  | branch k b c v => (ValueForm.branch k b c).segments v
  | push r => [.encoded (.push .stackPointer r (-4)) none]
  | pop r => [.encoded (.pop r .stackPointer 4) none]
  | exchange s t => [.encoded (.exchange t s) none]
  | arith op s t => [.encoded (.arith op t t s) none]
  | logic op s t => [.encoded (.logic op t t s) none]
  | complement r => [.encoded (.logic .not r r .zero) none]
  | shift op s t => [.encoded (.shift op t t s) none]
  | readControl control t => [.encoded (.readControl t control) none]
  | writeControl s control => [.encoded (.writeControl control s) none]
  | load (.immediate v) t => (ValueForm.loadValue t).segments v
  | load (.place (.memory v)) t => (ValueForm.loadWord t).segments v
  | load (.place (.register r)) t => [.encoded (.move t r 0) none]
  | load (.place (.indirect base d)) t => [.encoded (.load t base d) none]
  | store s (.memory v) => (ValueForm.storeWord s).segments v
  | store s (.register r) => [.encoded (.move r s 0) none]
  | store s (.indirect base d) => [.encoded (.store base .zero s d) none]

def operandWords (op : Operation) : List Piece :=
  match op.value? with
  | some v => if v.inline?.isSome then [] else [v.piece]
  | none => []

variable {op : Operation}

theorem pieces_eq_flatMap (op : Operation) : op.pieces = op.segments.flatMap Segment.pieces := by
  cases op with
  | call v => exact ValueForm.pieces_eq_flatMap .call v
  | jump v => exact ValueForm.pieces_eq_flatMap .jump v
  | branch k b c v => exact ValueForm.pieces_eq_flatMap (.branch k b c) v
  | load source t =>
    cases source with
    | immediate v => exact ValueForm.pieces_eq_flatMap (.loadValue t) v
    | place p =>
      cases p with
      | memory v => exact ValueForm.pieces_eq_flatMap (.loadWord t) v
      | _ => rfl
  | store s target =>
    cases target with
    | memory v => exact ValueForm.pieces_eq_flatMap (.storeWord s) v
    | _ => rfl
  | _ => rfl

theorem sound_of_mem_segments (hlegal : op.Legal) : ∀ s ∈ op.segments, s.Sound := by
  have hone {i : Instruction} (hi : ∀ d ∈ i.displacement?, FitsDisplacement d)
      (hplain : i.hasOperandWord = false) : ∀ s ∈ [Segment.encoded i none], s.Sound :=
    List.forall_mem_singleton.mpr (Segment.sound_encoded hi hplain)
  cases op with
  | call v => exact ValueForm.sound_of_mem_segments .call v
  | jump v => exact ValueForm.sound_of_mem_segments .jump v
  | branch k b c v => exact ValueForm.sound_of_mem_segments (.branch k b c) v
  | interruptReturn =>
    refine List.forall_mem_cons.mpr ⟨Segment.sound_encoded ?_ rfl, hone ?_ rfl⟩
    all_goals
      rintro _ ⟨rfl⟩
      decide
  | load source t =>
    cases source with
    | immediate v => exact ValueForm.sound_of_mem_segments (.loadValue t) v
    | place p =>
      cases p with
      | memory v => exact ValueForm.sound_of_mem_segments (.loadWord t) v
      | register r => exact hone (by rintro _ ⟨rfl⟩; decide) rfl
      | indirect base d => exact hone (by rintro _ ⟨rfl⟩; exact hlegal) rfl
  | store s target =>
    cases target with
    | memory v => exact ValueForm.sound_of_mem_segments (.storeWord s) v
    | register r => exact hone (by rintro _ ⟨rfl⟩; decide) rfl
    | indirect base d => exact hone (by rintro _ ⟨rfl⟩; exact hlegal) rfl
  | subroutineReturn | push r | pop r => exact hone (by rintro _ ⟨rfl⟩; decide) rfl
  | _ => exact hone (by rintro _ ⟨⟩) rfl

theorem operands_segments (op : Operation) :
    op.segments.filterMap (·.operand) = op.operandWords := by
  cases op with
  | call v => exact ValueForm.operands_segments .call v
  | jump v => exact ValueForm.operands_segments .jump v
  | branch k b c v => exact ValueForm.operands_segments (.branch k b c) v
  | load source t =>
    cases source with
    | immediate v => exact ValueForm.operands_segments (.loadValue t) v
    | place p =>
      cases p with
      | memory v => exact ValueForm.operands_segments (.loadWord t) v
      | _ => rfl
  | store s target =>
    cases target with
    | memory v => exact ValueForm.operands_segments (.storeWord s) v
    | _ => rfl
  | _ => rfl

theorem segments?_pieces (hlegal : op.Legal) : segments? op.pieces = some op.segments := by
  rw [pieces_eq_flatMap]
  exact segments?_flatMap (sound_of_mem_segments hlegal)

/-- The walk over the pieces of an operation finds these segments: each begins with a word that is
an instruction, the pieces that belong to one are the operand words, every reference is among them,
and the last segment ends at the size. -/
structure Divides (op : Operation) (segments : List Segment) : Prop where
  walked : segments? op.pieces = some segments
  pieces : op.pieces = segments.flatMap Segment.pieces
  sound : ∀ s ∈ segments, s.Sound
  operands : segments.filterMap (·.operand) = op.operandWords
  references : ∀ name, .reference name ∈ op.pieces →
    ∃ s ∈ segments, s.operand = some (.reference name)
  size : 4 * (segments.flatMap Segment.pieces).length = op.size

theorem divides_segments (hlegal : op.Legal) : op.Divides op.segments where
  walked := segments?_pieces hlegal
  pieces := op.pieces_eq_flatMap
  sound := sound_of_mem_segments hlegal
  operands := op.operands_segments
  references := by
    intro name hname
    rw [pieces_eq_flatMap, List.mem_flatMap] at hname
    obtain ⟨s, hs, hname⟩ := hname
    refine ⟨s, hs, ?_⟩
    simpa [Segment.pieces] using hname
  size := by
    rw [Operation.size, ← length_pieces, pieces_eq_flatMap]

end Operation

def Instruction.written : Instruction → List Register
  | exchange b c => [b, c]
  | arith _ a _ _ | logic _ a _ _ | shift _ a _ _ | push a _ _ | readControl a _ | move a _ _
  | load a _ _ | loadPool a _ _ => [a]
  | pop a b _ | popFused a b _ => [a, b]
  | popControl _ b _ => [b]
  | halt | interrupt | call .. | callPool .. | jump .. | jumpPool .. | store .. | storePool ..
  | writeControl .. | moveControl .. | loadControl .. => []

namespace Machine

/-- A machine that executes the instruction at its program counter is sent elsewhere by it. A jump
compares its registers when the program counter is behind the instruction, and behind the operand
word if there is one. -/
def Diverts (m : Machine) : Instruction → Prop
  | .interrupt | .call .. | .callPool .. => True
  | .jump k _ b c _ => k.holds (m.advance.get b) (m.advance.get c)
  | .jumpPool k _ b c _ => k.holds (m.advance.advance.get b) (m.advance.advance.get c)
  | _ => False

variable (m : Machine)

theorem pc_set {r : Register} (h : r ≠ .programCounter) (v : Word) : (m.set r v).pc = m.pc :=
  get_set_of_ne m v h

variable {m} {i : Instruction}

/-- An instruction leaves the program counter behind the words that belong to it. -/
theorem pc_execute (hfused : ∀ a b d, i ≠ .popFused a b d) (hwritten : .programCounter ∉ i.written)
    (hstays : ¬ m.Diverts i) :
    (m.advance.execute m.pc i).1.pc = m.pc + if i.hasOperandWord then 8 else 4 := by
  -- A pool instruction advances over its operand by itself, before or after its other effect, so
  -- every form is followed through on its own.
  have hkept {r : Register} (m : Machine) (v : Word) (hr : r ∈ i.written) :
      (m.set r v).pc = m.pc := pc_set m (fun h => hwritten (h ▸ hr)) v
  have hbehind : m.advance.advance.pc = m.pc + 8 := by rw [advance_advance, pc_jumpTo]
  cases i with
  | popFused a b d => exact absurd rfl (hfused a b d)
  | interrupt | call | callPool => exact absurd trivial hstays
  | jump k a b c d =>
    have hfalls : ¬ k.holds (m.advance.get b) (m.advance.get c) := hstays
    rw [execute, if_neg hfalls]
    exact m.pc_advance
  | jumpPool k a b c d =>
    have hfalls : ¬ k.holds (m.advance.advance.get b) (m.advance.advance.get c) := hstays
    simp only [execute]
    rw [if_neg hfalls]
    exact hbehind
  | storePool a b c d =>
    have hstore (m : Machine) (target v : Word) : (m.store target v).advance.pc = m.pc + 4 := by
      rw [pc_advance, pc_store]
    exact (hstore m.advance _ _).trans (by rw [← pc_advance, hbehind]; rfl)
  | loadPool a b d => exact (hkept _ _ (by simp [Instruction.written])).trans hbehind
  | arith op a b c =>
    simp only [execute]
    split
    · exact (hkept _ _ (by simp [Instruction.written])).trans m.pc_advance
    · exact m.pc_advance
  | exchange b c =>
    have hc (m : Machine) (v : Word) := hkept m v (r := c) (by simp [Instruction.written])
    exact (hc _ _).trans ((hkept _ _ (by simp [Instruction.written])).trans m.pc_advance)
  | pop a b d =>
    have ha (m : Machine) (v : Word) := hkept m v (r := a) (by simp [Instruction.written])
    exact (ha _ _).trans ((hkept _ _ (by simp [Instruction.written])).trans m.pc_advance)
  | halt | store | writeControl | moveControl | loadControl => exact m.pc_advance
  | logic | shift | push | readControl | move | load | popControl =>
    exact (hkept _ _ (by simp [Instruction.written])).trans m.pc_advance

theorem pc_of_step {after : Machine} {result : Except Trap Retired}
    (hdecode : Instruction.decode (m.fetch m.pc) = .ok i) (hfused : ∀ a b d, i ≠ .popFused a b d)
    (hwritten : .programCounter ∉ i.written) (hstays : ¬ m.Diverts i)
    (hstep : m.step = (after, result)) :
    after.pc = m.pc + if i.hasOperandWord then 8 else 4 := by
  have hafter : m.step.1 = (m.advance.execute m.pc i).1 := by
    simp only [step, hdecode]
    split
    · rename_i h
      rw [h]
    · rename_i h
      rw [h]
  rw [← pc_execute hfused hwritten hstays, ← hafter, hstep]

end Machine

/-- Of every line with an operation, the decoder finds the operand words where the encoder has put
them, and ends where the size says. A machine that completes an instruction which is no fused pop,
does not write the program counter and does not transfer control goes on behind the operand word if
there is one, and otherwise with the next word. -/
theorem boundaries_agree :
    (∀ raw label op, Line.read raw = .ok ⟨label, some (.operation op)⟩ →
      ∃ segments, op.Divides segments) ∧
    (∀ (m after : Machine) (i : Instruction) (retired : Retired),
      Instruction.decode (m.fetch m.pc) = .ok i → (∀ a b d, i ≠ .popFused a b d) →
      .programCounter ∉ i.written → ¬ m.Diverts i → m.step = (after, .ok retired) →
      after.pc = m.pc + if i.hasOperandWord then 8 else 4) := by
  constructor
  · intro raw label op hread
    have hlegal : op.Legal := (Line.legal_of_read hread).statement _ rfl
    exact ⟨op.segments, Operation.divides_segments hlegal⟩
  · intro m after i retired hdecode hfused hwritten hstays hstep
    exact Machine.pc_of_step hdecode hfused hwritten hstays hstep

/-- A branch to a symbol on registers that are equal is not taken, and goes on behind its operand
word. -/
theorem boundaries_agree_branch :
    let op : Operation := .branch .notEqual ⟨1, by decide⟩ ⟨2, by decide⟩ (.symbol "x")
    let i : Instruction := .jumpPool .notEqual .programCounter ⟨1, by decide⟩ ⟨2, by decide⟩ 0
    let m := Machine.start (.ofList [(0x40000000, 0x3AF12000)])
    Line.read "bne %r1, %r2, x" = .ok ⟨none, some (.operation op)⟩ ∧
      (∃ segments, op.Divides segments) ∧
      segments? op.pieces = some [⟨i.encode, i, some (.reference "x")⟩] ∧
      m.fetch m.pc = i.encode ∧ Instruction.decode (m.fetch m.pc) = .ok i ∧ ¬ m.Diverts i ∧
      m.step.2 = .ok ⟨m.pc, m.fetch m.pc⟩ ∧ m.step.1.pc = m.pc + 8 := by
  intro op i m
  have hread : Line.read "bne %r1, %r2, x" = .ok ⟨none, some (.operation op)⟩ := rfl
  have hwalk : segments? op.pieces = some op.segments :=
    Operation.segments?_pieces ((Line.legal_of_read hread).statement _ rfl)
  have hfetch : m.fetch m.pc = i.encode := by decide +kernel
  have hdecode : Instruction.decode (m.fetch m.pc) = .ok i := by
    rw [hfetch]
    apply Instruction.decode_encode_of_fits
    rintro _ ⟨rfl⟩
    decide
  have hstays : ¬ m.Diverts i := by
    change ¬ Condition.notEqual.holds _ _
    decide +kernel
  have hstep : m.step.2 = .ok ⟨m.pc, m.fetch m.pc⟩ := by
    rw [Machine.step, hdecode]
    rfl
  have hfused : ∀ a b d, i ≠ .popFused a b d := by
    intro a b d
    exact Instruction.noConfusion
  have hpc : m.step.1.pc = m.pc + 8 := boundaries_agree.2 m m.step.1 i _ hdecode hfused (by decide)
    hstays (Prod.ext rfl hstep)
  exact ⟨hread, boundaries_agree.1 _ _ op hread, hwalk, hfetch, hdecode, hstays, hstep, hpc⟩

end Toolchain32
