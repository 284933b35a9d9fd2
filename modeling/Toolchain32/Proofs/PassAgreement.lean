import Toolchain32.Proofs.EmittedRows
import Toolchain32.Proofs.PassErrors
import Toolchain32.Proofs.SectionContents
import Toolchain32.Proofs.SymbolTables

/-!
# The survey and the emission agree

Both walks over a program move the same counters, so that a section is emitted at the size it was
surveyed at: `Passes.inStep`. The words of a section stand at the offsets 0, 4, 8 and so on up to
that size, and a label has the offset that the rows of the lines before it lead to.
-/

namespace Toolchain32

open Fallible

structure Passes (implicit : Option String) (program : Program) where
  survey : Survey
  symbols : SymbolTable
  rows : List Row
  emitted : Locations
  surveyed : Survey.ofProgram implicit program = .ok survey
  declared : survey.symbols.declareAll program = .ok symbols
  emits : survey.locations.restarted.emitLines implicit symbols program = .ok (rows, emitted)

namespace Passes

variable {implicit : Option String} {program : Program} (p : Passes implicit program)

theorem sound : p.survey.Sound := Survey.sound_of_ofProgram p.surveyed

theorem describes : p.symbols.Describes p.survey :=
  SymbolTable.describes_of_declareAll p.sound p.declared

/-- An emission begins as a survey does, but for the sections that are already known. -/
theorem inStep_restarted (s : Survey) (hs : s.Sound) :
    Locations.InStep Survey.empty.locations s.locations.restarted where
  left := .empty
  right := hs.locations.restarted
  current := rfl
  counter name := by rw [Locations.counter_restarted]; rfl

theorem inStep : Locations.InStep p.survey.locations p.emitted :=
  (inStep_restarted p.survey p.sound).follow
    (Survey.follow_of_lines .empty p.surveyed).1
    (Locations.emitLines_rows p.sound.locations.restarted p.emits).1

theorem mismatch?_eq_none : mismatch? p.survey.locations p.emitted = none := by
  rw [mismatch?, Option.map_eq_none_iff, List.find?_eq_none]
  intro c hc
  simp [← p.inStep.counter, Locations.counter_of_mem p.sound.locations hc]

/-- The rows of a section fill it up to its surveyed size. -/
theorem tiles (name : String) : Tiles name 0 p.rows (p.survey.locations.counter name) := by
  have htiles := (Locations.emitLines_rows p.sound.locations.restarted p.emits).2.2 name
  rwa [Locations.counter_restarted, ← p.inStep.counter] at htiles

end Passes

theorem Program.assemble_eq_ok {options : AssemblyOptions} {program : Program} {a : Assembled}
    (h : program.assemble options = .ok a) :
    ∃ p : Passes options.implicitSection program, a = .ofRows p.survey p.symbols p.rows := by
  obtain ⟨survey, surveyed, h⟩ := bind_eq_ok.mp h
  obtain ⟨symbols, declared, h⟩ := bind_eq_ok.mp h
  obtain ⟨⟨rows, emitted⟩, emits, h⟩ := bind_eq_ok.mp h
  refine ⟨⟨survey, symbols, rows, emitted, surveyed, declared, emits⟩, ?_⟩
  simp only at h
  split at h
  · cases h
  · exact (Except.ok.inj h).symm

/-- The passes over a program never disagree. -/
theorem Program.not_isMismatch {options : AssemblyOptions} {program : Program} {e : SourceError}
    (h : program.assemble options = .error e) : ¬ e.error.IsMismatch := by
  rcases bind_eq_error.mp h with h | ⟨survey, surveyed, h⟩
  · exact (NoMismatchAt.surveyLines _ program).property e h
  rcases bind_eq_error.mp h with h | ⟨symbols, declared, h⟩
  · exact (NoMismatchAt.declareAll _ program).property e h
  rcases bind_eq_error.mp h with h | ⟨⟨rows, emitted⟩, emits, h⟩
  · exact (NoMismatchAt.emitLines _ _ program).property e h
  have hnone := Passes.mismatch?_eq_none ⟨survey, symbols, rows, emitted, surveyed, declared, emits⟩
  simp only at hnone h
  rw [hnone] at h
  cases h

namespace Passes

variable {implicit : Option String} {program : Program} (p : Passes implicit program)

/-- A surveyed size is a number of whole words, one at each offset. -/
theorem exists_count (name : String) : ∃ count, p.survey.locations.counter name = 4 * count ∧
    (emittedInto p.rows name).map (·.1) = wordOffsets 0 count := by
  obtain ⟨count, hcount, hkeys⟩ := keys_emittedInto (p.tiles name)
  exact ⟨count, hcount.trans (Nat.zero_add _), hkeys⟩

theorem ascending_emittedInto (name : String) :
    ((emittedInto p.rows name).map (·.1)).Pairwise (· < ·) := by
  obtain ⟨count, hcount, hkeys⟩ := p.exists_count name
  have hsmall := p.sound.locations.small name
  rw [hkeys]
  exact ascending_wordOffsets (by omega)

theorem nodup_emittedInto (name : String) : ((emittedInto p.rows name).map (·.1)).Nodup :=
  (p.ascending_emittedInto name).imp UInt32.ne_of_lt

theorem sectionName_of_mem {sec : Section} (h : sec ∈ p.survey.sections) :
    sec.name ∈ p.survey.locations.names ∧
      sec.size.toNat = p.survey.locations.counter sec.name := by
  obtain ⟨⟨c, i⟩, hc, rfl⟩ := List.mem_map.mp h
  have hmem : c ∈ p.survey.locations.counters := List.fst_mem_of_mem_zipIdx hc
  have hcounter := Locations.counter_of_mem p.sound.locations hmem
  have hsmall := p.sound.locations.small c.1
  refine ⟨List.mem_map_of_mem hmem, ?_⟩
  rw [hcounter] at hsmall ⊢
  exact UInt32.toNat_ofNat_of_lt' hsmall

theorem data?_eq {symbols : SymbolTable} {rows : List Row} {name : String}
    (h : name ∈ p.survey.locations.names) :
    (Assembled.ofRows p.survey symbols rows).object.data? name =
      some (Assembled.sectionData rows name) := by
  obtain ⟨c, hc, rfl⟩ := List.mem_map.mp h
  have hkeys : (Assembled.ofRows p.survey symbols rows).object.data.map (·.1) =
      p.survey.locations.names := by
    simp [Assembled.ofRows, Locations.names, Function.comp_def]
  exact lookup_eq_of_mem (hkeys ▸ p.sound.locations.nodup)
    (e := (c.1, Assembled.sectionData rows c.1)) (List.mem_map_of_mem hc)

/-- Where the passes are when they come to a line: the survey so far, the counters of the emission,
and the rows that are still to come. -/
structure Reaches (p : Passes implicit program) (before : Program) (n : NumberedLine)
    (after : Program) (s : Survey) (l : Locations) (rows : List Row) : Prop where
  sound : s.Sound
  inStep : Locations.InStep s.locations l
  surveys : s.lines implicit (n :: after) = .ok p.survey
  emits : l.emitLines implicit p.symbols (n :: after) = .ok (rows, p.emitted)
  rows : rows ⊆ p.rows
  opened : s.locations.current.or implicit = before.lastOpened.or implicit
  counter : ∀ name,
    s.locations.counter name = bytesInto (p.rows.filter (·.line < n.number)) name

/-- The passes come to every line, with the counters at the bytes of the lines before it. -/
theorem exists_reaches {before after : Program} {n : NumberedLine}
    (hprogram : program = before ++ n :: after)
    (hnumbers : program.map (·.number) = List.range' 1 program.length) :
    ∃ s l rows, p.Reaches before n after s l rows := by
  subst hprogram
  obtain ⟨s, hbefore, hrest⟩ := Survey.lines_append.mp p.surveyed
  obtain ⟨rows, l, more, hrows, hmore, happend⟩ := Locations.emitLines_append.mp p.emits
  have hwalk := (Survey.follow_of_lines .empty hbefore).1
  obtain ⟨hwalk', hof, htiles⟩ := Locations.emitLines_rows p.sound.locations.restarted hrows
  have hstep := (inStep_restarted p.survey p.sound).follow hwalk hwalk'
  obtain ⟨-, hofmore, -⟩ := Locations.emitLines_rows hstep.right hmore
  have hopened : s.locations.current.or implicit = before.lastOpened.or (none.or implicit) :=
    Locations.section_follow .empty hwalk
  have hrowsBefore : p.rows.filter (·.line < n.number) = rows := by
    obtain ⟨hless, hmore⟩ := Program.numbers_of_append hnumbers
    rw [happend, List.filter_append, List.filter_eq_self.mpr, List.filter_eq_nil_iff.mpr,
      List.append_nil]
    · intro r hr
      obtain ⟨m, hm, _, _, hrow⟩ := hofmore r hr
      have hle := hmore m hm
      simp [hrow.line, hle]
    · intro r hr
      obtain ⟨m, hm, _, _, hrow⟩ := hof r hr
      simpa [hrow.line] using hless m hm
  refine ⟨s, l, more, Survey.Sound.empty.lines hbefore, hstep, hrest, hmore, ?_, hopened,
    fun name => ?_⟩
  · rw [happend]
    exact List.subset_append_right ..
  · rw [hrowsBefore, hstep.counter, (htiles name).stop_eq, Locations.counter_restarted,
      Nat.zero_add]

/-- The label of a line is where the rows of the lines before it end. -/
theorem exists_label {before after : Program} {n : NumberedLine} {name : String}
    (hprogram : program = before ++ n :: after)
    (hnumbers : program.map (·.number) = List.range' 1 program.length)
    (hname : n.line.label = some name) :
    ∃ sectionName, before.lastOpened.or implicit = some sectionName ∧
      ⟨name, sectionName, bytesInto (p.rows.filter (·.line < n.number)) sectionName⟩ ∈
        p.survey.labels := by
  obtain ⟨s, l, rows, h⟩ := p.exists_reaches hprogram hnumbers
  obtain ⟨s₁, hline, hafter⟩ := Survey.lines_cons.mp h.surveys
  obtain ⟨sectionName, hsection⟩ := Survey.exists_section_of_line h.sound.locations hline hname
  have hlabels := (Survey.followLine_of_line h.sound.locations hline).2
  refine ⟨sectionName, h.opened ▸ hsection, ?_⟩
  rw [← h.counter]
  refine (Survey.follow_of_lines (h.sound.line hline).locations hafter).2.subset ?_
  rw [hlabels]
  simp [Survey.labelAt, hname, hsection]

/-- The content of a line is emitted into the open section, where the rows of the lines before it
end. -/
theorem exists_row {before after : Program} {n : NumberedLine} {s : Statement}
    {pieces : List Piece} (hprogram : program = before ++ n :: after)
    (hnumbers : program.map (·.number) = List.range' 1 program.length)
    (hstatement : n.line.statement = some s) (hpieces : s.pieces? = .ok (some pieces)) :
    ∃ row ∈ p.rows, ∃ slots, row.IsOf p.symbols n pieces slots ∧
      before.lastOpened.or implicit = some row.sectionName ∧
      row.offset = bytesInto (p.rows.filter (·.line < n.number)) row.sectionName := by
  obtain ⟨survey, l, rows, h⟩ := p.exists_reaches hprogram hnumbers
  obtain ⟨first, l₂, more, hline, -, rfl⟩ := Locations.emitLines_cons.mp h.emits
  obtain ⟨l₁, hlabel, hline⟩ := Locations.emitLine_eq_ok hline
  obtain ⟨hl₁, hsection, hcounter⟩ := Locations.section_followLabel h.inStep.right hlabel
  rw [hstatement] at hline
  obtain ⟨row, rfl, hemit⟩ := Locations.emit_of_pieces hpieces hline
  obtain ⟨_, slots, hensure, hoffset, -, hslots, hwords, hrelocations, hnumber, hcode⟩ :=
    Locations.emit_eq_ok hemit
  obtain ⟨-, -, hopened, hcounter'⟩ := Locations.ensure_eq_ok hl₁ hensure
  refine ⟨row, h.rows (List.mem_append_left _ List.mem_cons_self), slots,
    ⟨hnumber, ⟨s, hstatement, hpieces, hcode⟩, hslots, hwords, hrelocations⟩, ?_, ?_⟩
  · rw [← h.opened, h.inStep.current, ← hsection, hopened]
  · rw [hoffset, hcounter', hcounter, ← h.inStep.counter, h.counter]

end Passes

namespace Assembled

/-- The words of every section stand at the offsets 0, 4, 8 and so on up to its size in the section
table, each of them emitted once, and its data holds them. -/
def SectionsFilled (a : Assembled) : Prop :=
  ∀ sec ∈ a.object.sections, ∃ count, sec.size.toNat = 4 * count ∧
    (emittedInto a.listing sec.name).map (·.1) = wordOffsets 0 count ∧
    ∃ data, a.object.data? sec.name = some data ∧
      ∀ o slot, data.words[o]? = some slot ↔ (o, slot) ∈ emittedInto a.listing sec.name

/-- Every label has one symbol. It is owned by the section that is open at its line, and its value
is how many bytes the lines before it put into that section. -/
def LabelsPlaced (implicit : Option String) (program : Program) (a : Assembled) : Prop :=
  ∀ (before after : Program) (n : NumberedLine) (name : String),
    program = before ++ n :: after → n.line.label = some name →
    ∃ sectionName, before.lastOpened.or implicit = some sectionName ∧
      ∃ s ∈ a.object.symbols, s.name = name ∧ s.kind = .plain ∧
        (∀ s' ∈ a.object.symbols, s'.name = name → s' = s) ∧
        (∃ owner ∈ a.object.symbols, owner.id = s.owner ∧ owner.kind = .ofSection ∧
          owner.name = sectionName) ∧
        s.value.toNat = bytesInto (a.listing.filter (·.line < n.number)) sectionName

end Assembled

namespace Passes

variable {implicit : Option String} {program : Program} (p : Passes implicit program)

theorem sectionsFilled : (Assembled.ofRows p.survey p.symbols p.rows).SectionsFilled := by
  intro sec hsec
  obtain ⟨hname, hsize⟩ := p.sectionName_of_mem hsec
  obtain ⟨count, hcount, hkeys⟩ := p.exists_count sec.name
  exact ⟨count, hsize.trans hcount, hkeys, _, p.data?_eq hname,
    words_sectionData (p.nodup_emittedInto sec.name)⟩

theorem labelsPlaced (hnumbers : program.map (·.number) = List.range' 1 program.length)
    (hlegal : ∀ n ∈ program, n.line.Legal) :
    (Assembled.ofRows p.survey p.symbols p.rows).LabelsPlaced implicit program := by
  intro before after n name hprogram hname
  obtain ⟨sectionName, hsection, hlabel⟩ := p.exists_label hprogram hnumbers hname
  obtain ⟨e, he, hentry⟩ := p.describes.labels _ hlabel
  obtain ⟨o, ho, hokind, honame⟩ := hentry.owner
  have hnonempty : name ≠ "" := by
    rintro rfl
    have hn : n ∈ program := by simp [hprogram]
    have hsymbol := (hlegal n hn).label _ hname
    revert hsymbol
    simp [SymbolName, isSymbolName]
  have hunique : ∀ s' ∈ p.symbols.toList, s'.name = name → s' = e := by
    intro s' hs' hname'
    rcases List.mem_cons.mp hs' with rfl | hs'
    · exact absurd hname'.symm hnonempty
    · exact SymbolTable.eq_of_name p.describes.sound hs' he (hname'.trans hentry.name.symm)
  have hvalue : e.value.toNat =
      bytesInto (p.rows.filter (·.line < n.number)) sectionName := by
    have hwithin := p.sound.within _ hlabel
    have hsmall := p.sound.locations.small sectionName
    rw [hentry.value]
    exact UInt32.toNat_ofNat_of_lt' (Nat.lt_of_le_of_lt hwithin hsmall)
  exact ⟨sectionName, hsection, e, List.mem_cons_of_mem _ he, hentry.name, hentry.kind, hunique,
    ⟨o, List.mem_of_getElem? ho, SymbolTable.byId?_eq_some p.describes.sound ho, hokind, honame⟩,
    hvalue⟩

end Passes

/-- Whatever the source, its passes agree: assembling it never ends with a mismatch, and when it
succeeds, the sections are filled up to their sizes and the labels of its lines up to the first end
directive stand where their lines are emitted. -/
theorem passes_agree (options : AssemblyOptions) (source : String) :
    (∀ e, assemble options source = .error e → ¬ e.error.IsMismatch) ∧
      ∀ a, assemble options source = .ok a → a.SectionsFilled ∧
        ∃ program, Program.read source = .ok program ∧ program.IsReadOf source ∧
          a.LabelsPlaced options.implicitSection program := by
  refine ⟨fun e h => ?_, fun a h => ?_⟩
  · rcases bind_eq_error.mp h with h | ⟨program, -, h⟩
    · exact (NoMismatchAt.readLines _ _).property e h
    · exact Program.not_isMismatch h
  · obtain ⟨program, hread, h⟩ := bind_eq_ok.mp h
    obtain ⟨p, rfl⟩ := Program.assemble_eq_ok h
    exact ⟨p.sectionsFilled, program, hread, Program.read_eq_ok_iff.mp hread,
      p.labelsPlaced (Program.numbers_readLines hread) (Program.legal_readLines hread)⟩

/-- A source that comes back to its labels from another section. -/
theorem passes_agree_twoSections :
    ∃ a, assemble {} "a: .word 1, b\n.section d\nb: .skip 5\n.section .text\ncall a" = .ok a ∧
      a.SectionsFilled ∧ ∃ program,
        Program.read "a: .word 1, b\n.section d\nb: .skip 5\n.section .text\ncall a" =
          .ok program ∧ program.IsReadOf
            "a: .word 1, b\n.section d\nb: .skip 5\n.section .text\ncall a" ∧
          a.LabelsPlaced (some ".text") program := by
  have hsome : (assemble {} "a: .word 1, b\n.section d\nb: .skip 5\n.section .text\ncall a"
      ).toOption.isSome = true := by
    decide +kernel
  cases h : assemble {} "a: .word 1, b\n.section d\nb: .skip 5\n.section .text\ncall a" with
  | error e =>
    rw [h] at hsome
    cases hsome
  | ok a => exact ⟨a, rfl, (passes_agree {} _).2 a h⟩

end Toolchain32
