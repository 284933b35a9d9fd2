import Toolchain32.Assembly
import Toolchain32.Proofs.Fallible

/-!
# The errors of the passes

A survey, the linkage directives and an emission have errors of their own, and none of them is that
two passes disagree.
-/

namespace Toolchain32

open Fallible

def AssemblyError.IsMismatch (e : AssemblyError) : Prop :=
  ∃ name surveyed emitted, e = .passMismatch name surveyed emitted

abbrev NoMismatch {α : Type} : Except AssemblyError α → Prop := FailsWith (¬ ·.IsMismatch)

namespace NoMismatch

variable {implicit : Option String}

theorem skipBytes (n : Word) : NoMismatch (skipBytes n) := by
  unfold Toolchain32.skipBytes
  split
  · exact .ok _
  · exact .error (by rintro ⟨_, _, _, ⟨⟩⟩)

theorem ensure {outside : AssemblyError} (h : ¬ outside.IsMismatch) (l : Locations) :
    NoMismatch (l.ensure implicit outside) := by
  unfold Locations.ensure
  split
  · exact .ok _
  · exact .ok _
  · exact .error h

theorem advance (l : Locations) (name : String) (bytes : Nat) :
    NoMismatch (l.advance name bytes) := by
  unfold Locations.advance
  split
  · exact .ok _
  · exact .error (by rintro ⟨_, _, _, ⟨⟩⟩)

theorem enter (s : Survey) (name : String) : NoMismatch (s.enter name) := by
  unfold Survey.enter
  split
  · exact .error (by rintro ⟨_, _, _, ⟨⟩⟩)
  · exact .ok _

theorem surveyEnsure {outside : AssemblyError} (h : ¬ outside.IsMismatch) (s : Survey) :
    NoMismatch (s.ensure implicit outside) := by
  unfold Survey.ensure
  split
  · exact .ok _
  · exact (enter ..).map
  · exact .error h

theorem define (s : Survey) (name : String) : NoMismatch (s.define implicit name) := by
  refine (surveyEnsure (by rintro ⟨_, _, _, ⟨⟩⟩) s).bind fun ⟨sectionName, s⟩ => ?_
  simp only
  split
  · exact .error (by rintro ⟨_, _, _, ⟨⟩⟩)
  · exact .ok _

theorem add (s : Survey) {bytes : Except AssemblyError Nat} (h : NoMismatch bytes) :
    NoMismatch (s.add implicit bytes) :=
  (surveyEnsure (by rintro ⟨_, _, _, ⟨⟩⟩) s).bind fun _ =>
    h.bind fun _ => (advance ..).bind fun _ => .ok _

theorem surveyStatement (s : Survey) (st : Statement) : NoMismatch (s.statement implicit st) := by
  cases st with
  | global names | external names | finish => exact .ok _
  | openSection name => exact enter ..
  | words values | operation op => exact add s (.ok _)
  | skip n => exact add s (skipBytes n)

theorem surveyLine (s : Survey) (l : Line) : NoMismatch (s.line implicit l) := by
  unfold Survey.line
  cases l.label with
  | none =>
    cases l.statement with
    | none => exact .ok _
    | some st => exact surveyStatement s st
  | some name =>
    refine (define s name).bind fun s => ?_
    cases l.statement with
    | none => exact .ok _
    | some st => exact surveyStatement s st

theorem declareGlobal (t : SymbolTable) (name : String) : NoMismatch (t.declareGlobal name) := by
  unfold SymbolTable.declareGlobal
  split
  · exact .ok _
  · split
    · exact .error (by rintro ⟨_, _, _, ⟨⟩⟩)
    · split <;> exact .ok _

theorem declareExternal (t : SymbolTable) (name : String) :
    NoMismatch (t.declareExternal name) := by
  unfold SymbolTable.declareExternal
  split
  · exact .ok _
  · split
    · exact .error (by rintro ⟨_, _, _, ⟨⟩⟩)
    · split
      · exact .error (by rintro ⟨_, _, _, ⟨⟩⟩)
      · exact .error (by rintro ⟨_, _, _, ⟨⟩⟩)
      · exact .ok _
      · exact .ok _

theorem declare (t : SymbolTable) (st : Statement) : NoMismatch (t.declare st) := by
  cases st with
  | global names => exact .foldlM declareGlobal names t
  | external names => exact .foldlM declareExternal names t
  | openSection name | words values | skip n | finish | operation op => exact .ok _

theorem relocation (t : SymbolTable) (name : String) (offset : Word) :
    NoMismatch (t.relocation name offset) := by
  unfold SymbolTable.relocation
  split
  · exact .error (by rintro ⟨_, _, _, ⟨⟩⟩)
  · split
    · exact .ok _
    · split
      · split
        · exact .ok _
        · exact .error (by rintro ⟨_, _, _, ⟨⟩⟩)
      · exact .ok _
      · exact .ok _
      · exact .error (by rintro ⟨_, _, _, ⟨⟩⟩)

theorem slots (t : SymbolTable) (offset : Nat) (pieces : List Piece) :
    NoMismatch (t.slots offset pieces) := by
  induction pieces generalizing offset with
  | nil => exact .ok _
  | cons p rest ih =>
    have hslot : NoMismatch (t.slot (UInt32.ofNat offset) p) := by
      cases p with
      | word w => exact .ok _
      | reference name => exact (relocation ..).map
    exact hslot.bind fun _ => (ih _).bind fun _ => .ok _

theorem emit (t : SymbolTable) (l : Locations) (line : Nat) (isCode : Bool)
    (pieces : List Piece) : NoMismatch (l.emit implicit t line isCode pieces) :=
  (ensure (by rintro ⟨_, _, _, ⟨⟩⟩) l).bind fun _ =>
    (slots ..).bind fun _ => (advance ..).bind fun _ => .ok _

theorem pieces? (s : Statement) : NoMismatch s.pieces? := by
  cases s with
  | skip n => exact (skipBytes n).map
  | _ => exact .ok _

theorem emitStatement (t : SymbolTable) (l : Locations) (line : Nat) (s : Statement) :
    NoMismatch (l.emitStatement implicit t line s) := by
  unfold Locations.emitStatement
  split
  · exact .ok _
  · refine (pieces? _).bind fun pieces => ?_
    cases pieces with
    | none => exact .ok _
    | some pieces => exact (emit ..).bind fun _ => .ok _

theorem emitLine (t : SymbolTable) (l : Locations) (n : NumberedLine) :
    NoMismatch (l.emitLine implicit t n) := by
  unfold Locations.emitLine
  cases n.line.label with
  | none =>
    cases n.line.statement with
    | none => exact .ok _
    | some st => exact emitStatement t l n.number st
  | some name =>
    refine (ensure (by rintro ⟨_, _, _, ⟨⟩⟩) l).map.bind fun l => ?_
    cases n.line.statement with
    | none => exact .ok _
    | some st => exact emitStatement t l n.number st

end NoMismatch

abbrev NoMismatchAt {α : Type} : Except SourceError α → Prop := FailsWith (¬ ·.error.IsMismatch)

namespace NoMismatchAt

variable {implicit : Option String}

theorem readLines (n : Nat) (raws : List (List Char)) :
    NoMismatchAt (Program.readLines n raws) := by
  induction raws generalizing n with
  | nil => exact .ok _
  | cons raw rest ih =>
    rw [Program.readLines]
    split
    · exact .error (by rintro ⟨_, _, _, ⟨⟩⟩)
    · split
      · exact .ok _
      · exact (ih _).map

theorem surveyLines (s : Survey) (program : Program) :
    NoMismatchAt (s.lines implicit program) := by
  induction program generalizing s with
  | nil => exact .ok _
  | cons n rest ih =>
    rw [Survey.lines]
    split
    · exact .error ((NoMismatch.surveyLine s n.line).property _ ‹_›)
    · exact ih _

theorem declareAll (t : SymbolTable) (program : Program) : NoMismatchAt (t.declareAll program) := by
  induction program generalizing t with
  | nil => exact .ok _
  | cons n rest ih =>
    rw [SymbolTable.declareAll]
    split
    · exact ih t
    · split
      · exact .error ((NoMismatch.declare t _).property _ ‹_›)
      · exact ih _

theorem emitLines (t : SymbolTable) (l : Locations) (program : Program) :
    NoMismatchAt (l.emitLines implicit t program) := by
  induction program generalizing l with
  | nil => exact .ok _
  | cons n rest ih =>
    rw [Locations.emitLines]
    split
    · exact .error ((NoMismatch.emitLine t l n).property _ ‹_›)
    · exact (ih _).map

end NoMismatchAt

end Toolchain32
