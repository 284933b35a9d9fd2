import Toolchain32.Proofs.AcceptedDirectives
import Toolchain32.Proofs.AcceptedSurveys
import Toolchain32.Proofs.AcceptedWalks
import Toolchain32.Proofs.PassAgreement
import Toolchain32.Proofs.SpelledValues

/-!
# Which sources are assembled

`Program.Acceptable` says what a program needs in order to be assembled, without regard to the
passes over it or to the order in which sections, labels, directives and references come. A source
is assembled exactly if it can be read and its program is acceptable: `exists_assemble_iff`.
-/

namespace Toolchain32

open Fallible

section Emission

variable {implicit : Option String} {t : SymbolTable} {l : Locations} {pieces : List Piece}
  {line : Nat} {isCode : Bool} {n : NumberedLine} {program : Program} {Known : String → Prop}
  (hknown : ∀ name offset, (∃ r, t.relocation name offset = .ok r) ↔ Known name)

include hknown

theorem SymbolTable.exists_slot_iff (p : Piece) (offset : Word) :
    (∃ first, t.slot offset p = .ok first) ↔ ∀ name, p = .reference name → Known name := by
  cases p with
  | word w => simp [SymbolTable.slot]
  | reference name =>
    simp only [SymbolTable.slot, exists_map_eq_ok, Piece.reference.injEq, forall_eq']
    exact hknown name offset

theorem SymbolTable.exists_slots_iff (pieces : List Piece) (offset : Nat) :
    (∃ slots, t.slots offset pieces = .ok slots) ↔
      ∀ name, .reference name ∈ pieces → Known name := by
  induction pieces generalizing offset with
  | nil => simp [SymbolTable.slots]
  | cons p rest ih =>
    have hfirst := SymbolTable.exists_slot_iff hknown p (UInt32.ofNat offset)
    constructor
    · rintro ⟨slots, h⟩ name hname
      obtain ⟨first, more, hslot, hmore, -⟩ := SymbolTable.slots_cons.mp h
      rcases List.mem_cons.mp hname with hname | hname
      · exact hfirst.mp ⟨first, hslot⟩ name hname.symm
      · exact (ih _).mp ⟨more, hmore⟩ name hname
    · intro h
      obtain ⟨first, hslot⟩ := hfirst.mpr fun name hname => h name (hname ▸ List.mem_cons_self)
      obtain ⟨more, hmore⟩ := (ih _).mpr fun name hname => h name (List.mem_cons_of_mem _ hname)
      exact ⟨_, SymbolTable.slots_cons.mpr ⟨first, more, hslot, hmore, rfl⟩⟩

namespace Locations

theorem exists_emit_iff : (∃ result, l.emit implicit t line isCode pieces = .ok result) ↔
    (∃ l', l.put implicit (4 * pieces.length) = .ok l') ∧
      ∀ name, .reference name ∈ pieces → Known name := by
  constructor
  · rintro ⟨⟨row, l'⟩, h⟩
    obtain ⟨l₁, slots, -, -, -, hslots, -⟩ := emit_eq_ok h
    exact ⟨⟨l', put_of_emit h⟩, (SymbolTable.exists_slots_iff hknown _ _).mp ⟨slots, hslots⟩⟩
  · rintro ⟨⟨l', h⟩, hreferences⟩
    obtain ⟨⟨name, l₁⟩, hensure, hadvance⟩ := bind_eq_ok.mp h
    obtain ⟨slots, hslots⟩ :=
      (SymbolTable.exists_slots_iff hknown pieces (l₁.counter name)).mpr hreferences
    refine exists_bind_eq_ok.mpr ⟨_, hensure, ?_⟩
    exact exists_bind_eq_ok.mpr ⟨slots, hslots, exists_bind_eq_ok.mpr ⟨l', hadvance, _, rfl⟩⟩

theorem exists_emitStatement_iff {s : Statement} :
    (∃ result, l.emitStatement implicit t line s = .ok result) ↔
      (∃ l', l.followStatement implicit s = .ok l') ∧
        ∀ name, .symbol name ∈ s.values → Known name := by
  have hcontent {pieces : List Piece} (h : s.pieces? = .ok (some pieces)) :
      (∃ result, l.emitStatement implicit t line s = .ok result) ↔
        (∃ l', l.followStatement implicit s = .ok l') ∧
          ∀ name, .symbol name ∈ s.values → Known name := by
    rw [emitStatement_of_pieces h, exists_map_eq_ok, exists_emit_iff hknown,
      followStatement_of_pieces h]
    simp only [Statement.reference_mem_pieces h]
  cases s with
  | global names | external names | finish | openSection name =>
    exact ⟨fun _ => ⟨⟨_, rfl⟩, nofun⟩, fun _ => ⟨_, rfl⟩⟩
  | words values | operation op => exact hcontent rfl
  | skip n =>
    cases hbytes : skipBytes n with
    | ok bytes => exact hcontent (by rw [Statement.pieces?, hbytes]; rfl)
    | error e =>
      have hemit : l.emitStatement implicit t line (.skip n) = .error e := by
        simp [emitStatement, Statement.pieces?, hbytes, Except.map, bind, Except.bind]
      have hwalk : l.followStatement implicit (.skip n) = .error e := by
        simp [followStatement, hbytes, bind, Except.bind]
      simp [hemit, hwalk]

theorem exists_emitLine_iff : (∃ result, l.emitLine implicit t n = .ok result) ↔
    (∃ l', l.followLine implicit n.line = .ok l') ∧
      ∀ name, n.line.RefersTo name → Known name := by
  rw [emitLine_eq, exists_bind_eq_ok, followLine, exists_bind_eq_ok]
  unfold Line.RefersTo
  cases n.line.statement with
  | none => simp [pure, Except.pure]
  | some s => simp [exists_emitStatement_iff hknown, ← and_assoc, exists_and_right]

theorem exists_emitLines_iff (hl : l.Sound) :
    (∃ result, l.emitLines implicit t program = .ok result) ↔
      (∃ l', l.follow implicit program = .ok l') ∧
        ∀ n ∈ program, ∀ name, n.line.RefersTo name → Known name := by
  induction program generalizing l with
  | nil => simp [emitLines, follow]
  | cons n rest ih =>
    rw [List.forall_mem_cons]
    constructor
    · rintro ⟨⟨rows, l'⟩, h⟩
      obtain ⟨first, l₁, more, hline, hrest, -⟩ := emitLines_cons.mp h
      obtain ⟨-, hfirst⟩ := (exists_emitLine_iff hknown).mp ⟨_, hline⟩
      have hwalk := (emitLine_rows hl hline).1
      obtain ⟨⟨l₂, hwalk'⟩, hmore⟩ := (ih (hl.followLine hwalk)).mp ⟨_, hrest⟩
      exact ⟨⟨l₂, bind_eq_ok.mpr ⟨l₁, hwalk, hwalk'⟩⟩, hfirst, hmore⟩
    · rintro ⟨⟨l', h⟩, hfirst, hmore⟩
      obtain ⟨l₁, hwalk, hwalk'⟩ := bind_eq_ok.mp h
      obtain ⟨⟨first, l₂⟩, hline⟩ := (exists_emitLine_iff hknown).mpr ⟨⟨l₁, hwalk⟩, hfirst⟩
      obtain rfl := Except.ok.inj (hwalk.symm.trans (emitLine_rows hl hline).1)
      obtain ⟨⟨more, l₃⟩, hrest⟩ := (ih (hl.followLine hwalk)).mpr ⟨⟨l', hwalk'⟩, hmore⟩
      exact ⟨_, emitLines_cons.mpr ⟨first, l₁, more, hline, hrest, rfl⟩⟩

end Locations

end Emission

namespace Survey

variable {implicit : Option String} {program : Program} {s : Survey} {t : SymbolTable}

theorem exists_ofProgram_iff : (∃ s, ofProgram implicit program = .ok s) ↔
    ((implicit = none → program.needsImplicit = false) ∧ (∀ n ∈ program, n.line.SkipFits) ∧
      ∀ name, program.sizeIn name implicit < 0x100000000) ∧
    program.labels.Nodup ∧ ∀ name ∈ program.labels, name ∉ program.openedNames implicit := by
  rw [ofProgram, exists_lines_iff .empty,
    ← Locations.exists_follow_iff_of_fresh .empty rfl fun _ => rfl]
  constructor
  · rintro ⟨l, hwalk, hnodup, hapart⟩
    refine ⟨⟨l, hwalk⟩, hnodup, fun name hname => ?_⟩
    exact mt (Locations.mem_names_of_empty hwalk).mpr (hapart name hname)
  · rintro ⟨⟨l, hwalk⟩, hnodup, hapart⟩
    refine ⟨l, hwalk, hnodup, fun name hname => ?_⟩
    exact mt (Locations.mem_names_of_empty hwalk).mp (hapart name hname)

section

variable (hs : ofProgram implicit program = .ok s)

include hs

theorem mem_names_iff {name : String} :
    name ∈ s.locations.names ↔ name ∈ program.openedNames implicit :=
  Locations.mem_names_of_empty (follow_of_lines .empty hs).1

theorem labels_of_ofProgram : s.labels.map (·.name) = program.labels := labels_lines .empty hs

theorem exists_declareAll_iff : (∃ t, s.symbols.declareAll program = .ok t) ↔
    (∀ name ∈ program.globals, name ∉ program.openedNames implicit) ∧
      ∀ name ∈ program.externals,
        name ∉ program.openedNames implicit ∧ name ∉ program.labels := by
  have hdescribes := SymbolTable.describes_symbols (sound_of_ofProgram hs)
  rw [hdescribes.exists_declareAll_iff, labels_of_ofProgram hs]
  simp only [mem_names_iff hs]

/-- The emission finds the sections at the sizes of the survey, so that only references can fail. -/
theorem exists_emitLines_iff (ht : s.symbols.declareAll program = .ok t) :
    (∃ result, s.locations.restarted.emitLines implicit t program = .ok result) ↔
      ∀ n ∈ program, ∀ name, n.line.RefersTo name →
        name ∈ program.openedNames implicit ∨ name ∈ program.labels ∨
          name ∈ program.externals := by
  have hsound := sound_of_ofProgram hs
  have hwalks : ∃ l, s.locations.restarted.follow implicit program = .ok l := by
    rw [Locations.exists_follow_iff_of_fresh hsound.locations.restarted rfl
        fun _ => Locations.counter_restarted,
      ← Locations.exists_follow_iff_of_fresh .empty rfl fun _ => rfl]
    exact ⟨_, (follow_of_lines .empty hs).1⟩
  have hknown (name : String) (offset : Word) :=
    SymbolTable.exists_relocation_iff hsound ht name offset
  simp only [labels_of_ofProgram hs, mem_names_iff hs] at hknown
  rw [Locations.exists_emitLines_iff hknown hsound.locations.restarted]
  exact and_iff_right hwalks

end

end Survey

/-- What a program needs in order to be assembled. -/
structure Program.Acceptable (implicit : Option String) (program : Program) : Prop where
  /-- Without an implicit section, labels and content come behind a section directive. -/
  housed : implicit = none → program.needsImplicit = false
  skips : ∀ n ∈ program, n.line.SkipFits
  sizes : ∀ name, program.sizeIn name implicit < 0x100000000
  labels : program.labels.Nodup
  apart : ∀ name ∈ program.labels, name ∉ program.openedNames implicit
  globals : ∀ name ∈ program.globals, name ∉ program.openedNames implicit
  externals : ∀ name ∈ program.externals,
    name ∉ program.openedNames implicit ∧ name ∉ program.labels
  references : ∀ n ∈ program, ∀ name, n.line.RefersTo name →
    name ∈ program.openedNames implicit ∨ name ∈ program.labels ∨ name ∈ program.externals

/-- The passes over a program are completed exactly if it is acceptable. -/
theorem Passes.nonempty_iff {implicit : Option String} {program : Program} :
    Nonempty (Passes implicit program) ↔ program.Acceptable implicit := by
  constructor
  · rintro ⟨p⟩
    obtain ⟨⟨housed, skips, sizes⟩, labels, apart⟩ :=
      Survey.exists_ofProgram_iff.mp ⟨_, p.surveyed⟩
    obtain ⟨globals, externals⟩ := (Survey.exists_declareAll_iff p.surveyed).mp ⟨_, p.declared⟩
    have references := (Survey.exists_emitLines_iff p.surveyed p.declared).mp ⟨_, p.emits⟩
    exact ⟨housed, skips, sizes, labels, apart, globals, externals, references⟩
  · intro h
    obtain ⟨survey, surveyed⟩ :=
      Survey.exists_ofProgram_iff.mpr ⟨⟨h.housed, h.skips, h.sizes⟩, h.labels, h.apart⟩
    obtain ⟨symbols, declared⟩ :=
      (Survey.exists_declareAll_iff surveyed).mpr ⟨h.globals, h.externals⟩
    obtain ⟨⟨rows, emitted⟩, emits⟩ :=
      (Survey.exists_emitLines_iff surveyed declared).mpr h.references
    exact ⟨⟨survey, symbols, rows, emitted, surveyed, declared, emits⟩⟩

theorem Program.exists_assembled_iff {options : AssemblyOptions} {program : Program} :
    (∃ a, program.assemble options = .ok a) ↔
      Nonempty (Passes options.implicitSection program) := by
  constructor
  · rintro ⟨a, h⟩
    obtain ⟨p, -⟩ := Program.assemble_eq_ok h
    exact ⟨p⟩
  · rintro ⟨p⟩
    refine exists_bind_eq_ok.mpr ⟨p.survey, p.surveyed, ?_⟩
    refine exists_bind_eq_ok.mpr ⟨p.symbols, p.declared, ?_⟩
    refine exists_bind_eq_ok.mpr ⟨(p.rows, p.emitted), p.emits, ?_⟩
    simp only [p.mismatch?_eq_none]
    exact ⟨_, rfl⟩

theorem exists_assembled_source_iff {options : AssemblyOptions} {source : String} :
    (∃ a, assemble options source = .ok a) ↔
      ∃ program, Program.read source = .ok program ∧
        program.Acceptable options.implicitSection := by
  rw [assemble, exists_bind_eq_ok]
  simp only [Program.exists_assembled_iff, Passes.nonempty_iff]

/-- A source is assembled exactly if its lines up to the first end directive can be read and make up
an acceptable program. -/
theorem exists_assemble_iff (options : AssemblyOptions) (source : String) :
    ((∃ a, assemble options source = .ok a) ↔
      ∃ program, Program.read source = .ok program ∧
        program.Acceptable options.implicitSection) ∧
    ∀ program, Program.read source = .ok program ↔ program.IsReadOf source :=
  ⟨exists_assembled_source_iff, fun _ => Program.read_eq_ok_iff⟩

/-- A source that uses names before it defines and declares them, with a line that cannot be read
behind its end. -/
theorem exists_assemble_iff_usesFirst :
    ∃ program, Program.read "call f\n.word d, g\n.section d\nf: .skip 5\n.extern g\n.end\n?" =
      .ok program ∧ program.IsReadOf
        "call f\n.word d, g\n.section d\nf: .skip 5\n.extern g\n.end\n?" ∧
      program.Acceptable (some ".text") := by
  obtain ⟨hassemble, hread⟩ := exists_assemble_iff {}
    "call f\n.word d, g\n.section d\nf: .skip 5\n.extern g\n.end\n?"
  obtain ⟨program, hprogram, hacceptable⟩ := hassemble.mp ⟨_, eq_ok_get (by decide +kernel)⟩
  exact ⟨program, hprogram, (hread program).mp hprogram, hacceptable⟩

end Toolchain32
