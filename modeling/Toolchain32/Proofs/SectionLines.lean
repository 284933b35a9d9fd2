import Toolchain32.Proofs.AcceptedWalks
import Toolchain32.Proofs.EmittedRows
import Toolchain32.Proofs.SurveyedLabels

/-!
# The lines of a section

A line belongs to the section that is open where it begins. What the passes make of a section is
told by its own lines in their order, wherever the lines of other sections stand between them: its
size (`counter_follow`), its labels (`labels_lines_in`) and the contents of its rows
(`contents_emitLines`).
-/

namespace Toolchain32

open Fallible

/-- The lines with a label or content that belong to a section, where `current` is the one that is
open at the begin. Lines before any section belong to `none`. -/
def sectionLines (key : Option String) : Option String → List Line → List Line
  | _, [] => []
  | current, line :: rest =>
    (if current = key ∧ line.needsSection = true then [line] else []) ++
      sectionLines key (line.opened?.or current) rest

section

variable {key current : Option String} {lines body body' rest : List Line}

theorem sectionLines_filter {keep : Line → Bool}
    (h : ∀ line, keep line = false → line.needsSection = false ∧ line.opened? = none) :
    sectionLines key current (lines.filter keep) = sectionLines key current lines := by
  induction lines generalizing current with
  | nil => rfl
  | cons line lines ih =>
    cases hkeep : keep line with
    | true => rw [List.filter_cons_of_pos hkeep, sectionLines, sectionLines, ih]
    | false =>
      obtain ⟨hneeds, hopened⟩ := h line hkeep
      rw [List.filter_cons_of_neg (by simp [hkeep]), sectionLines, ih, hneeds, hopened]
      simp

theorem sectionLines_append_congr (h : ∀ current, sectionLines key current body =
      sectionLines key current body') (before : List Line) :
    sectionLines key current (before ++ body) = sectionLines key current (before ++ body') := by
  induction before generalizing current with
  | nil => exact h current
  | cons line before ih => rw [List.cons_append, List.cons_append, sectionLines, sectionLines, ih]

/-- Lines that stay in a section do not change where the lines behind them belong. -/
theorem sectionLines_append (h : ∀ line ∈ body, line.opened? = none) :
    sectionLines key current (body ++ rest) =
      sectionLines key current body ++ sectionLines key current rest := by
  induction body with
  | nil => rfl
  | cons line body ih =>
    rw [List.forall_mem_cons] at h
    rw [List.cons_append, sectionLines, sectionLines, h.1, Option.none_or, ih h.2,
      List.append_assoc]

theorem sectionLines_eq_nil (h : ∀ line ∈ body, line.opened? = none) (hkey : current ≠ key) :
    sectionLines key current body = [] := by
  induction body with
  | nil => rfl
  | cons line body ih =>
    rw [List.forall_mem_cons] at h
    rw [sectionLines, if_neg fun hline => hkey hline.1, h.1, Option.none_or, ih h.2,
      List.append_nil]

end

def placed {α : Type} (f : Nat → Line → List α) : Nat → List Line → List α
  | _, [] => []
  | offset, line :: rest => f offset line ++ placed f (offset + line.bytes) rest

theorem Line.bytes_of_not_needsSection {line : Line} (h : line.needsSection = false) :
    line.bytes = 0 := by
  rw [needsSection, Bool.or_eq_false_iff] at h
  unfold bytes
  cases hs : line.statement with
  | none => rfl
  | some s =>
    rw [hs] at h
    exact Statement.bytes_of_not_hasContent h.2

theorem placed_sectionLines {α : Type} {f : Nat → Line → List α}
    (hf : ∀ offset line, line.needsSection = false → f offset line = []) (name : String)
    (current : Option String) (offset : Nat) (line : Line) (rest : List Line) :
    placed f offset (sectionLines (some name) current (line :: rest)) =
      (if current = some name then f offset line else []) ++
        placed f (offset + if current = some name then line.bytes else 0)
          (sectionLines (some name) (line.opened?.or current) rest) := by
  rw [sectionLines]
  by_cases hcurrent : current = some name
  · cases hneeds : line.needsSection with
    | true => simp [hcurrent, placed]
    | false => simp [hcurrent, hf offset line hneeds, Line.bytes_of_not_needsSection hneeds]
  · simp [hcurrent]

namespace Program

variable {program : Program} {name : String}

theorem sizeIn_eq (program : Program) (name : String) (current : Option String) :
    program.sizeIn name current =
      ((sectionLines (some name) current (program.map (·.line))).map Line.bytes).sum := by
  induction program generalizing current with
  | nil => rfl
  | cons n rest ih =>
    rw [sizeIn, ih, List.map_cons, sectionLines, List.map_append, List.sum_append]
    congr 1
    by_cases hcurrent : current = some name
    · cases hneeds : n.line.needsSection with
      | true => simp [hcurrent]
      | false => simp [Line.bytes_of_not_needsSection hneeds]
    · simp [hcurrent]

theorem sectionLines_none (name : String) (lines : List Line) :
    sectionLines none (some name) lines = [] := by
  induction lines generalizing name with
  | nil => rfl
  | cons line rest ih =>
    rw [sectionLines, if_neg (by simp)]
    cases line.opened? with
    | none => exact ih name
    | some other => exact ih other

/-- An implicit section is needed for the lines before any section. -/
theorem needsImplicit_eq_false_iff :
    program.needsImplicit = false ↔ sectionLines none none (program.map (·.line)) = [] := by
  induction program with
  | nil => simp [needsImplicit, sectionLines]
  | cons n rest ih =>
    rw [needsImplicit, List.map_cons, sectionLines]
    cases hneeds : n.line.needsSection with
    | true => simp
    | false =>
      cases hopened : n.line.opened? with
      | none => simpa using ih
      | some name => simp [sectionLines_none]

end Program

namespace Locations

variable {implicit : Option String} {l l' : Locations} {program : Program}

/-- A walk moves the counter of a section by the size of the section. -/
theorem counter_follow (hl : l.Sound) (h : l.follow implicit program = .ok l') (name : String) :
    l'.counter name = l.counter name + program.sizeIn name (l.current.or implicit) := by
  induction program generalizing l with
  | nil =>
    cases h
    rfl
  | cons n rest ih =>
    obtain ⟨l₁, hline, hrest⟩ := bind_eq_ok.mp h
    rw [ih (hl.followLine hline) hrest, section_followLine hl hline, counter_followLine hl hline,
      Program.sizeIn, Nat.add_assoc]

end Locations

def Line.labelsAt (name : String) (offset : Nat) (line : Line) : List Label :=
  (line.label.map fun label => ⟨label, name, offset⟩).toList

namespace Survey

variable {implicit : Option String} {s s' : Survey} {program : Program} {name : String}

theorem filter_labelAt (implicit : Option String) (l : Locations) (line : Line) (name : String) :
    (labelAt implicit l line).filter (·.sectionName == name) =
      if l.current.or implicit = some name then line.labelsAt name (l.counter name) else [] := by
  unfold labelAt Line.labelsAt
  cases hlabel : line.label with
  | none => simp
  | some label =>
    cases hsection : l.current.or implicit with
    | none => simp
    | some sectionName =>
      by_cases hname : sectionName = name
      · simp [hname]
      · simp [hname]

/-- The labels of a section, in the order of its lines. -/
theorem labels_lines_in (hs : s.locations.Sound) (h : s.lines implicit program = .ok s')
    (name : String) :
    s'.labels.filter (·.sectionName == name) =
      s.labels.filter (·.sectionName == name) ++
        placed (Line.labelsAt name) (s.locations.counter name)
          (sectionLines (some name) (s.locations.current.or implicit)
            (program.map (·.line))) := by
  have hquiet (offset : Nat) (line : Line) (hneeds : line.needsSection = false) :
      line.labelsAt name offset = [] := by
    rw [Line.needsSection, Bool.or_eq_false_iff, Option.isSome_eq_false_iff,
      Option.isNone_iff_eq_none] at hneeds
    rw [Line.labelsAt, hneeds.1]
    rfl
  induction program generalizing s with
  | nil =>
    cases h
    simp [sectionLines, placed]
  | cons n rest ih =>
    obtain ⟨s₁, hline, hrest⟩ := lines_cons.mp h
    obtain ⟨hwalk, hlabels⟩ := followLine_of_line hs hline
    rw [ih (hs.followLine hwalk) hrest, hlabels, List.filter_append, filter_labelAt,
      Locations.section_followLine hs hwalk, Locations.counter_followLine hs hwalk, List.map_cons,
      placed_sectionLines hquiet, List.append_assoc]

end Survey

def Row.content (r : Row) : Nat × List Slot × List Relocation := (r.offset, r.words, r.relocations)

def Line.contentsAt (t : SymbolTable) (offset : Nat) (line : Line) :
    List (Nat × List Slot × List Relocation) :=
  match line.statement.map Statement.pieces? with
  | some (.ok (some pieces)) =>
    match t.slots offset pieces with
    | .ok slots => [(offset, slots.map (·.1), slots.filterMap (·.2))]
    | .error _ => []
  | _ => []

/-- The data of a section is told by the contents of its rows. -/
theorem Assembled.sectionData_congr {rows rows' : List Row} {name : String}
    (h : (rows.filter (·.sectionName == name)).map Row.content =
      (rows'.filter (·.sectionName == name)).map Row.content) :
    sectionData rows name = sectionData rows' name := by
  have hrelocations (rows : List Row) :
      rows.flatMap (·.relocations) = (rows.map Row.content).flatMap (·.2.2) := by
    rw [List.flatMap_map]
    rfl
  have hentries (rows : List Row) : rows.flatMap Row.entries =
      (rows.map Row.content).flatMap fun c =>
        c.2.1.zipIdx.map fun p => (UInt32.ofNat (c.1 + 4 * p.2), p.1) := by
    rw [List.flatMap_map]
    rfl
  simp only [sectionData, hrelocations, hentries, h]

theorem Line.contentsAt_of_not_needsSection (t : SymbolTable) (offset : Nat) (line : Line)
    (h : line.needsSection = false) : line.contentsAt t offset = [] := by
  rw [needsSection, Bool.or_eq_false_iff] at h
  unfold contentsAt
  cases hs : line.statement with
  | none => rfl
  | some s =>
    rw [hs] at h
    cases s with
    | words values | skip n | operation op => cases h.2
    | global names | external names | openSection name | finish => rfl

theorem Row.IsOf.contentsAt {t : SymbolTable} {n : NumberedLine} {r : Row} {pieces : List Piece}
    {slots : List (Slot × Option Relocation)} (h : r.IsOf t n pieces slots) :
    n.line.contentsAt t r.offset = [r.content] := by
  obtain ⟨s, hs, hpieces, -⟩ := h.content
  unfold Line.contentsAt
  rw [hs, Option.map_some, hpieces]
  simp only [h.resolved]
  rw [Row.content, h.words, h.relocations]

namespace Locations

variable {implicit : Option String} {t : SymbolTable} {l l' : Locations} {rows : List Row}
  {n : NumberedLine} {program : Program}

/-- A line gives at most one row, at the counter of the section that it belongs to. -/
theorem emitLine_cases (hl : l.Sound) (h : l.emitLine implicit t n = .ok (rows, l')) :
    (rows = [] ∧ ∀ offset, n.line.contentsAt t offset = []) ∨
      ∃ row pieces slots, rows = [row] ∧ row.IsOf t n pieces slots ∧
        l.current.or implicit = some row.sectionName ∧ row.offset = l.counter row.sectionName := by
  have hof := (emitLine_rows hl h).2.1
  obtain ⟨l₁, hlabel, h⟩ := emitLine_eq_ok h
  obtain ⟨hl₁, hsection, hcounter⟩ := section_followLabel hl hlabel
  cases hs : n.line.statement with
  | none =>
    rw [hs] at h
    cases h
    exact .inl ⟨rfl, fun offset => by rw [Line.contentsAt, hs]; rfl⟩
  | some s =>
    rw [hs] at h
    cases hpieces : s.pieces? with
    | error e =>
      cases s with
      | skip k => simp [emitStatement, hpieces, bind, Except.bind] at h
      | _ => cases hpieces
    | ok pieces? =>
      cases pieces? with
      | none =>
        refine .inl ⟨?_, fun offset => by rw [Line.contentsAt, hs, Option.map_some, hpieces]⟩
        rcases emitStatement_eq_ok h with ⟨hrows, -, -⟩ | ⟨pieces, -, hsome, -, -⟩
        · exact hrows
        · cases hpieces.symm.trans hsome
      | some pieces =>
        obtain ⟨row, rfl, hemit⟩ := emit_of_pieces hpieces h
        obtain ⟨pieces', slots, hrow⟩ := hof row List.mem_cons_self
        obtain ⟨_, _, hensure, hoffset, -⟩ := emit_eq_ok hemit
        obtain ⟨-, -, hopened, hcounter'⟩ := ensure_eq_ok hl₁ hensure
        refine .inr ⟨row, pieces', slots, rfl, hrow, hsection ▸ hopened, ?_⟩
        rw [hoffset, hcounter', hcounter]

/-- Every row has a line of its own, and rows are in the order of their lines. -/
theorem lines_of_emitLines (hl : l.Sound) (h : l.emitLines implicit t program = .ok (rows, l')) :
    (rows.map (·.line)).Sublist (program.map (·.number)) := by
  induction program generalizing l rows with
  | nil =>
    cases h
    exact .slnil
  | cons n rest ih =>
    obtain ⟨first, l₁, more, hline, hrest, rfl⟩ := emitLines_cons.mp h
    have hmore := ih (hl.followLine (emitLine_rows hl hline).1) hrest
    rcases emitLine_cases hl hline with ⟨rfl, -⟩ | ⟨row, _, _, rfl, hrow, -⟩
    · exact hmore.cons _
    · rw [List.singleton_append, List.map_cons, List.map_cons, hrow.line]
      exact hmore.cons_cons _

theorem contents_emitLine (hl : l.Sound) (h : l.emitLine implicit t n = .ok (rows, l'))
    (name : String) :
    (rows.filter (·.sectionName == name)).map Row.content =
      if l.current.or implicit = some name then n.line.contentsAt t (l.counter name) else [] := by
  rcases emitLine_cases hl h with ⟨rfl, hnone⟩ | ⟨row, pieces, slots, rfl, hrow, hsection, hoffset⟩
  · simp [hnone]
  · rw [hsection]
    by_cases hname : row.sectionName = name
    · subst hname
      rw [if_pos rfl, ← hoffset, hrow.contentsAt]
      simp
    · simp [hname]

/-- The contents of the rows of a section, in the order of its lines. -/
theorem contents_emitLines (hl : l.Sound) (h : l.emitLines implicit t program = .ok (rows, l'))
    (name : String) :
    (rows.filter (·.sectionName == name)).map Row.content =
      placed (Line.contentsAt t) (l.counter name)
        (sectionLines (some name) (l.current.or implicit) (program.map (·.line))) := by
  induction program generalizing l rows with
  | nil =>
    cases h
    rfl
  | cons n rest ih =>
    obtain ⟨first, l₁, more, hline, hrest, rfl⟩ := emitLines_cons.mp h
    have hwalk := (emitLine_rows hl hline).1
    rw [List.filter_append, List.map_append, contents_emitLine hl hline,
      ih (hl.followLine hwalk) hrest, section_followLine hl hwalk, counter_followLine hl hwalk,
      List.map_cons, placed_sectionLines (Line.contentsAt_of_not_needsSection t)]

end Locations

end Toolchain32
