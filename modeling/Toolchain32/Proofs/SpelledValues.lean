import Toolchain32.Assembly.Emission
import Toolchain32.Proofs.LegalLines

/-!
# The values that statements spell out

A data statement spells one value for each of its words, and an operation at most one, whose word
comes behind the word of its instruction. The references among the pieces of a statement are just
those of its values that are symbols, each at its own place: `Statement.reference_iff`.
-/

namespace Toolchain32

open Fallible

namespace Statement

def values : Statement → List Value
  | words values => values
  | operation op => op.value?.toList
  | skip _ | global _ | external _ | openSection _ | finish => []

/-- How many words stand before the word of the first value. -/
def leadingWords : Statement → Nat
  | operation _ => 1
  | words _ | skip _ | global _ | external _ | openSection _ | finish => 0

end Statement

def Line.RefersTo (l : Line) (name : String) : Prop :=
  ∃ s, l.statement = some s ∧ .symbol name ∈ s.values

variable {name : String} {k : Nat}

theorem Value.piece_eq_reference_iff {v : Value} : v.piece = .reference name ↔ v = .symbol name := by
  cases v <;> simp [Value.piece]

theorem shortOrPool_eq_reference_iff {v : Value} {short : Int16 → Instruction}
    {pool : Instruction} :
    (shortOrPool v short pool)[k]? = some (.reference name) ↔ k = 1 ∧ v = .symbol name := by
  unfold shortOrPool
  cases v with
  | literal n => cases (Value.literal n).inline? <;> rcases k with _ | _ | k <;> simp [Value.piece]
  | symbol other => rcases k with _ | _ | k <;> simp [Value.inline?, Value.piece]

/-- The only reference among the pieces of an operation is its value, as the second piece. -/
theorem Operation.reference_iff {op : Operation} :
    op.pieces[k]? = some (.reference name) ↔ k = 1 ∧ op.value? = some (.symbol name) := by
  have hword (w : Word) : [Piece.word w][k]? ≠ some (.reference name) := by
    rcases k with _ | k <;> simp
  cases op with
  | call v | jump v | branch _ b c v =>
    rw [pieces, shortOrPool_eq_reference_iff, value?, Option.some.injEq]
  | load source target =>
    cases source with
    | immediate v =>
      rw [pieces, loadPieces, shortOrPool_eq_reference_iff, value?, Option.some.injEq]
    | place p =>
      cases p with
      | memory v =>
        cases v with
        | literal n =>
          simp only [pieces, loadPieces]
          cases (Value.literal n).inline? <;> rcases k with _ | _ | _ | k <;>
            simp [Value.piece, value?]
        | symbol other =>
          rcases k with _ | _ | _ | k <;>
            simp [pieces, loadPieces, Value.inline?, Value.piece, value?]
      | register r | indirect base d => simp [pieces, loadPieces, value?, hword]
  | store source target =>
    cases target with
    | memory v =>
      rw [pieces, storePieces, shortOrPool_eq_reference_iff, value?, Option.some.injEq]
    | register r | indirect base d => simp [pieces, storePieces, value?, hword]
  | interruptReturn => rcases k with _ | _ | k <;> simp [pieces, value?]
  | _ => simp [pieces, value?, hword]

namespace Statement

variable {s : Statement} {pieces : List Piece}

/-- The references among the pieces of a statement are the symbols among its values, each in the
word of its own. -/
theorem reference_iff (h : s.pieces? = .ok (some pieces)) :
    pieces[k]? = some (.reference name) ↔
      ∃ i, s.values[i]? = some (.symbol name) ∧ k = s.leadingWords + i := by
  cases s with
  | global names | external names | openSection name | finish => cases h
  | words values =>
    cases h
    simp [Statement.values, leadingWords, Value.piece_eq_reference_iff]
  | skip n =>
    obtain ⟨bytes, -, h⟩ := map_eq_ok.mp h
    cases h
    simp [Statement.values, List.getElem?_replicate]
  | operation op =>
    cases h
    have hvalue (i : Nat) : op.value?.toList[i]? = some (.symbol name) ↔
        i = 0 ∧ op.value? = some (.symbol name) := by
      cases op.value? <;> rcases i with _ | i <;> simp
    simp only [Operation.reference_iff, leadingWords, values, hvalue]
    constructor
    · rintro ⟨rfl, hv⟩
      exact ⟨0, ⟨rfl, hv⟩, rfl⟩
    · rintro ⟨_, ⟨rfl, hv⟩, rfl⟩
      exact ⟨rfl, hv⟩

theorem reference_mem_pieces (h : s.pieces? = .ok (some pieces)) :
    .reference name ∈ pieces ↔ .symbol name ∈ s.values := by
  simp only [List.mem_iff_getElem?, reference_iff h]
  constructor
  · rintro ⟨_, i, hi, -⟩
    exact ⟨i, hi⟩
  · rintro ⟨i, hi⟩
    exact ⟨_, i, hi, rfl⟩

/-- A statement with values has pieces. -/
theorem exists_pieces_of_values {v : Value} (h : v ∈ s.values) :
    ∃ pieces, s.pieces? = .ok (some pieces) := by
  cases s with
  | words values | operation op => exact ⟨_, rfl⟩
  | skip n | global names | external names | openSection name | finish => cases h

end Statement

end Toolchain32
