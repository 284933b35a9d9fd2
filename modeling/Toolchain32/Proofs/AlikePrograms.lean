import Toolchain32.Proofs.AcceptedSources
import Toolchain32.Proofs.AssembledObjects
import Toolchain32.Proofs.SymbolViews

/-!
# Programs with the same sections

Two programs are alike if they consist of the same lines and every section has its own lines in the
same order in both. Either both of them are assembled or none is (`LinesAlike.acceptable`), and then
their objects differ at most in the ids and the order of their tables (`LinesAlike.sameByName`).
-/

namespace Toolchain32

open Fallible

structure Object.SameByName (o o' : Object) : Prop where
  sections : (o.sections.map fun s => (s.name, s.size)).Perm
    (o'.sections.map fun s => (s.name, s.size))
  symbols : (o.symbols.map (·.viewIn o.symbols)).Perm (o'.symbols.map (·.viewIn o'.symbols))
  data : o.data.Perm o'.data

/-- The same lines, and the same lines in the same order within each section. -/
structure LinesAlike (lines lines' : List Line) : Prop where
  perm : lines.Perm lines'
  sections : ∀ key current, sectionLines key current lines = sectionLines key current lines'

namespace LinesAlike

theorem refl (lines : List Line) : LinesAlike lines lines := ⟨.refl lines, fun _ _ => rfl⟩

theorem symm {lines lines' : List Line} (h : LinesAlike lines lines') : LinesAlike lines' lines :=
  ⟨h.perm.symm, fun key current => (h.sections key current).symm⟩

variable {implicit : Option String} {program program' : Program}
  (h : LinesAlike (program.map (·.line)) (program'.map (·.line)))

include h

theorem forall_line_iff (P : Line → Prop) :
    (∀ n ∈ program, P n.line) ↔ ∀ n ∈ program', P n.line := by
  have hlines (p : Program) : (∀ n ∈ p, P n.line) ↔ ∀ line ∈ p.map (·.line), P line :=
    List.forall_mem_map.symm
  rw [hlines, hlines]
  exact ⟨fun hall line hline => hall line (h.perm.mem_iff.mpr hline),
    fun hall line hline => hall line (h.perm.mem_iff.mp hline)⟩

theorem labels : program.labels.Perm program'.labels := by
  have hlabels (p : Program) : p.labels = (p.map (·.line)).filterMap (·.label) := by
    rw [List.filterMap_map]
    rfl
  rw [hlabels, hlabels]
  exact h.perm.filterMap _

theorem flatMap_line (f : Line → List String) :
    (program.flatMap fun n => f n.line).Perm (program'.flatMap fun n => f n.line) := by
  have hlines (p : Program) : (p.flatMap fun n => f n.line) = (p.map (·.line)).flatMap f := by
    rw [List.flatMap_map]
  rw [hlines, hlines]
  exact h.perm.flatMap_right f

theorem globals : program.globals.Perm program'.globals :=
  h.flatMap_line fun line => (line.statement.map Statement.globals).getD []

theorem externals : program.externals.Perm program'.externals :=
  h.flatMap_line fun line => (line.statement.map Statement.externals).getD []

theorem sizeIn (name : String) (current : Option String) :
    program.sizeIn name current = program'.sizeIn name current := by
  rw [Program.sizeIn_eq, Program.sizeIn_eq, h.sections]

theorem needsImplicit : program.needsImplicit = program'.needsImplicit := by
  have hiff : program.needsImplicit = false ↔ program'.needsImplicit = false := by
    rw [Program.needsImplicit_eq_false_iff, Program.needsImplicit_eq_false_iff, h.sections]
  exact Bool.eq_iff_iff.mpr (by simpa using not_congr hiff)

theorem openedNames :
    (program.openedNames implicit).Perm (program'.openedNames implicit) := by
  have hopened (p : Program) :
      p.filterMap (·.line.opened?) = (p.map (·.line)).filterMap Line.opened? := by
    rw [List.filterMap_map]
    rfl
  rw [Program.openedNames, Program.openedNames, h.needsImplicit, hopened, hopened]
  exact (h.perm.filterMap _).append_left _

/-- Whether a program is assembled does not depend on how the lines of its sections are
interleaved. -/
theorem acceptable (hprogram : program.Acceptable implicit) : program'.Acceptable implicit where
  housed himplicit := h.needsImplicit ▸ hprogram.housed himplicit
  skips := (h.forall_line_iff Line.SkipFits).mp hprogram.skips
  sizes name := h.sizeIn name implicit ▸ hprogram.sizes name
  labels := h.labels.nodup_iff.mp hprogram.labels
  apart name hname := by
    rw [← h.openedNames.mem_iff]
    exact hprogram.apart name (h.labels.mem_iff.mpr hname)
  globals name hname := by
    rw [← h.openedNames.mem_iff]
    exact hprogram.globals name (h.globals.mem_iff.mpr hname)
  externals name hname := by
    rw [← h.openedNames.mem_iff, ← h.labels.mem_iff]
    exact hprogram.externals name (h.externals.mem_iff.mpr hname)
  references := by
    have hreferences := hprogram.references
    simp only [h.openedNames.mem_iff, h.labels.mem_iff, h.externals.mem_iff] at hreferences
    exact (h.forall_line_iff fun line => ∀ name, line.RefersTo name →
      name ∈ program'.openedNames implicit ∨ name ∈ program'.labels ∨
        name ∈ program'.externals).mp hreferences

variable (p : Passes implicit program) (p' : Passes implicit program')

theorem mem_names (name : String) :
    name ∈ p.survey.locations.names ↔ name ∈ p'.survey.locations.names := by
  rw [Survey.mem_names_iff p.surveyed, Survey.mem_names_iff p'.surveyed, h.openedNames.mem_iff]

theorem counter (name : String) :
    p.survey.locations.counter name = p'.survey.locations.counter name := by
  rw [Locations.counter_follow .empty (Survey.follow_of_lines .empty p.surveyed).1,
    Locations.counter_follow .empty (Survey.follow_of_lines .empty p'.surveyed).1, h.sizeIn]

theorem counters : p.survey.locations.counters.Perm p'.survey.locations.counters := by
  have hnodup {program : Program} (p : Passes implicit program) :
      p.survey.locations.counters.Nodup := by
    have hnames : (p.survey.locations.counters.map (·.1)).Nodup := p.sound.locations.nodup
    exact hnames.of_map _
  have hmem {program : Program} (p : Passes implicit program) (c : String × Nat) :
      c ∈ p.survey.locations.counters ↔
        c.1 ∈ p.survey.locations.names ∧ p.survey.locations.counter c.1 = c.2 := by
    constructor
    · intro hc
      exact ⟨List.mem_map_of_mem hc, Locations.counter_of_mem p.sound.locations hc⟩
    · rintro ⟨hname, hcounter⟩
      obtain ⟨c', hc', heq⟩ := List.mem_map.mp hname
      have hcounter' := Locations.counter_of_mem p.sound.locations hc'
      rw [heq, hcounter] at hcounter'
      exact Prod.ext heq hcounter'.symm ▸ hc'
  rw [List.perm_ext_iff_of_nodup (hnodup p) (hnodup p')]
  intro c
  rw [hmem, hmem, h.mem_names p p', h.counter p p']

theorem mem_survey_labels (l : Label) : l ∈ p.survey.labels ↔ l ∈ p'.survey.labels := by
  have hown {program : Program} (p : Passes implicit program) :
      l ∈ p.survey.labels ↔ l ∈ placed (Line.labelsAt l.sectionName) 0
        (sectionLines (some l.sectionName) (none.or implicit) (program.map (·.line))) := by
    have hlabels := Survey.labels_lines_in .empty p.surveyed l.sectionName
    rw [Survey.empty, List.filter_nil, List.nil_append] at hlabels
    have hfilter : l ∈ p.survey.labels ↔
        l ∈ p.survey.labels.filter (·.sectionName == l.sectionName) := by simp
    rw [hfilter, hlabels]
    rfl
  rw [hown p, hown p', h.sections]

theorem shows {v : SymbolView} (hv : p.survey.Shows program v) : p'.survey.Shows program' v := by
  cases hv with
  | ofSection name hopened => exact .ofSection name ((h.mem_names p p' name).mp hopened)
  | ofLabel l hl binding hdefined hglobal =>
    rw [h.globals.mem_iff] at hglobal
    exact .ofLabel l ((h.mem_survey_labels p p' l).mp hl) binding hdefined hglobal
  | ofOpen name hdeclared hsection hlabel binding hopen hexternal =>
    rw [h.globals.mem_iff, h.externals.mem_iff] at hdeclared
    rw [h.mem_names p p'] at hsection
    rw [Survey.labels_of_ofProgram p.surveyed, h.labels.mem_iff,
      ← Survey.labels_of_ofProgram p'.surveyed] at hlabel
    rw [h.externals.mem_iff] at hexternal
    exact .ofOpen name hdeclared hsection hlabel binding hopen hexternal

theorem views : p.symbols.views.Perm p'.symbols.views := by
  rw [List.perm_ext_iff_of_nodup (SymbolTable.nodup_views p.describes.sound)
    (SymbolTable.nodup_views p'.describes.sound)]
  intro v
  rw [SymbolTable.mem_views_iff p.sound p.declared, SymbolTable.mem_views_iff p'.sound p'.declared]
  exact ⟨h.shows p p', h.symm.shows p' p⟩

theorem sectionData (name : String) :
    Assembled.sectionData p.rows name = Assembled.sectionData p'.rows name := by
  have hcontents {program : Program} (p : Passes implicit program) :
      (p.rows.filter (·.sectionName == name)).map Row.content =
        placed (Line.contentsAt p.symbols) 0
          (sectionLines (some name) (none.or implicit) (program.map (·.line))) := by
    rw [Locations.contents_emitLines p.sound.locations.restarted p.emits,
      Locations.counter_restarted]
    rfl
  apply Assembled.sectionData_congr
  rw [hcontents p, hcontents p', h.sections,
    SymbolTable.contentsAt_congr p.describes.sound p'.describes.sound (h.views p p')]

/-- Alike programs have the same object, apart from ids and the order of its tables. -/
theorem sameByName : p.object.SameByName p'.object where
  sections := by
    have hsections {program : Program} (p : Passes implicit program) :
        (p.object.sections.map fun s => (s.name, s.size)) =
          p.survey.locations.counters.map fun c => (c.1, UInt32.ofNat c.2) := by
      calc (p.object.sections.map fun s => (s.name, s.size))
          = (p.survey.locations.counters.zipIdx.map Prod.fst).map
              fun c => (c.1, UInt32.ofNat c.2) := by
            rw [List.map_map]
            exact List.map_map
        _ = _ := by rw [List.zipIdx_map_fst]
    rw [hsections p, hsections p']
    exact (h.counters p p').map _
  symbols := (h.views p p').cons _
  data := by
    have hrows : p.object.data =
        p.survey.locations.counters.map fun c => (c.1, Assembled.sectionData p'.rows c.1) :=
      List.map_congr_left fun c _ => by rw [h.sectionData p p']
    rw [hrows]
    exact (h.counters p p').map _

end LinesAlike

end Toolchain32
