import Mathlib.Algebra.GroupWithZero.Nat
import Toolchain32.Proofs.LocationWalk

/-!
# The rows of an emission

An emission takes the common walk over a program and turns lines into rows. `Row.IsOf` says what
there is in a row, and `Tiles` that the rows of one section stand behind each other, without a gap:
`tiles_of_emitLines`.
-/

namespace Toolchain32

open Fallible

namespace Row

def bytes (r : Row) : Nat := 4 * r.words.length

structure IsOf (t : SymbolTable) (n : NumberedLine) (r : Row) (pieces : List Piece)
    (slots : List (Slot × Option Relocation)) : Prop where
  line : r.line = n.number
  content : ∃ s, n.line.statement = some s ∧ s.pieces? = .ok (some pieces) ∧
    r.isCode = s.isOperation
  resolved : t.slots r.offset pieces = .ok slots
  words : r.words = slots.map (·.1)
  relocations : r.relocations = slots.filterMap (·.2)

end Row

def bytesInto (rows : List Row) (name : String) : Nat :=
  ((rows.filter (·.sectionName == name)).map Row.bytes).sum

/-- The rows of a section stand behind each other from one offset to another. -/
def Tiles (name : String) : Nat → List Row → Nat → Prop
  | start, [], stop => start = stop
  | start, r :: rest, stop =>
    if r.sectionName = name then r.offset = start ∧ Tiles name (start + r.bytes) rest stop
    else Tiles name start rest stop

namespace Tiles

variable {name : String} {start middle stop : Nat} {rows more : List Row}

theorem append (h : Tiles name start rows middle) (h' : Tiles name middle more stop) :
    Tiles name start (rows ++ more) stop := by
  induction rows generalizing start with
  | nil => exact h ▸ h'
  | cons r rest ih =>
    by_cases hr : r.sectionName = name
    · simp only [Tiles, hr, if_true, List.cons_append] at h ⊢
      exact ⟨h.1, ih h.2⟩
    · simp only [Tiles, hr, if_false, List.cons_append] at h ⊢
      exact ih h

theorem stop_eq (h : Tiles name start rows stop) : stop = start + bytesInto rows name := by
  induction rows generalizing start with
  | nil => exact h.symm
  | cons r rest ih =>
    by_cases hr : r.sectionName = name
    · simp only [Tiles, hr, if_true] at h
      simp [ih h.2, bytesInto, hr, Nat.add_assoc]
    · simp only [Tiles, hr, if_false] at h
      simp [ih h, bytesInto, hr]

/-- A row stands where the rows before it end. -/
theorem offset_eq {row : Row} (h : Tiles name start (rows ++ row :: more) stop)
    (hname : row.sectionName = name) : row.offset = start + bytesInto rows name := by
  induction rows generalizing start with
  | nil =>
    simp only [List.nil_append, Tiles, hname, if_true] at h
    exact h.1
  | cons r rows ih =>
    by_cases hr : r.sectionName = name
    · simp only [List.cons_append, Tiles, hr, if_true] at h
      simp [ih h.2, bytesInto, hr, Nat.add_assoc]
    · simp only [List.cons_append, Tiles, hr, if_false] at h
      simp [ih h, bytesInto, hr]

/-- A row of a section ends where the rows end, or before. -/
theorem within {r : Row} (h : Tiles name start rows stop) (hr : r ∈ rows)
    (hname : r.sectionName = name) : r.offset + r.bytes ≤ stop := by
  induction rows generalizing start with
  | nil => cases hr
  | cons first rest ih =>
    by_cases hfirst : first.sectionName = name
    · simp only [Tiles, hfirst, if_true] at h
      rcases List.mem_cons.mp hr with rfl | hr
      · have hstop := h.2.stop_eq
        omega
      · exact ih h.2 hr
    · simp only [Tiles, hfirst, if_false] at h
      rcases List.mem_cons.mp hr with rfl | hr
      · exact absurd hname hfirst
      · exact ih h hr

end Tiles

namespace SymbolTable

variable {t : SymbolTable} {offset : Nat} {pieces : List Piece}
  {slots : List (Slot × Option Relocation)}

theorem slots_cons {p : Piece} :
    t.slots offset (p :: pieces) = .ok slots ↔
      ∃ first rest, t.slot (UInt32.ofNat offset) p = .ok first ∧
        t.slots (offset + 4) pieces = .ok rest ∧ slots = first :: rest := by
  simp only [SymbolTable.slots, bind_eq_ok]
  constructor
  · rintro ⟨first, hfirst, rest, hrest, h⟩
    exact ⟨first, rest, hfirst, hrest, (Except.ok.inj h).symm⟩
  · rintro ⟨first, rest, hfirst, hrest, rfl⟩
    exact ⟨first, hfirst, rest, hrest, rfl⟩

theorem length_slots (h : t.slots offset pieces = .ok slots) : slots.length = pieces.length := by
  induction pieces generalizing offset slots with
  | nil =>
    cases h
    rfl
  | cons p rest ih =>
    obtain ⟨_, _, -, hrest, rfl⟩ := slots_cons.mp h
    rw [List.length_cons, List.length_cons, ih hrest]

end SymbolTable

namespace Locations

variable {implicit : Option String} {t : SymbolTable} {l l' : Locations} {line : Nat}
  {isCode : Bool} {pieces : List Piece} {row : Row} {rows : List Row} {n : NumberedLine}
  {program : Program}

theorem emit_eq_ok (h : l.emit implicit t line isCode pieces = .ok (row, l')) :
    ∃ l₁ slots, l.ensure implicit .contentOutsideSection = .ok (row.sectionName, l₁) ∧
      row.offset = l₁.counter row.sectionName ∧
      l₁.advance row.sectionName (4 * pieces.length) = .ok l' ∧
      t.slots row.offset pieces = .ok slots ∧ row.words = slots.map (·.1) ∧
      row.relocations = slots.filterMap (·.2) ∧ row.line = line ∧ row.isCode = isCode := by
  obtain ⟨⟨sectionName, l₁⟩, hensure, h⟩ := bind_eq_ok.mp h
  obtain ⟨slots, hslots, h⟩ := bind_eq_ok.mp h
  obtain ⟨l₂, hadvance, h⟩ := bind_eq_ok.mp h
  obtain ⟨rfl, rfl⟩ := Prod.mk.inj (Except.ok.inj h)
  exact ⟨l₁, slots, hensure, rfl, hadvance, hslots, rfl, rfl, rfl, rfl⟩

/-- A row stands at the counter of its section, which moves behind it. -/
theorem tiles_of_emit (hl : l.Sound) (h : l.emit implicit t line isCode pieces = .ok (row, l'))
    (name : String) : Tiles name (l.counter name) [row] (l'.counter name) := by
  obtain ⟨l₁, slots, hensure, hoffset, hadvance, hslots, hwords, -⟩ := emit_eq_ok h
  obtain ⟨hl₁, hcurrent, -, hcounter⟩ := ensure_eq_ok hl hensure
  have hbytes : row.bytes = 4 * pieces.length := by
    rw [Row.bytes, hwords, List.length_map, SymbolTable.length_slots hslots]
  rw [counter_advance hadvance (hl₁.current _ hcurrent), hcounter]
  by_cases hname : row.sectionName = name
  · simp only [Tiles, hname, if_true, hbytes, and_true]
    rw [hoffset, hname, hcounter]
  · simp only [Tiles, hname, if_false, Ne.symm hname, Nat.add_zero]

theorem put_of_emit (h : l.emit implicit t line isCode pieces = .ok (row, l')) :
    l.put implicit (4 * pieces.length) = .ok l' := by
  obtain ⟨l₁, slots, hensure, -, hadvance, -⟩ := emit_eq_ok h
  exact bind_eq_ok.mpr ⟨_, hensure, hadvance⟩

/-- Content takes as many bytes as the survey takes it to. -/
theorem followStatement_of_pieces {s : Statement} (h : s.pieces? = .ok (some pieces)) :
    l.followStatement implicit s = l.put implicit (4 * pieces.length) := by
  cases s with
  | global names | external names | openSection name | finish => cases h
  | words values =>
    cases h
    rw [followStatement, List.length_map]
  | skip n =>
    obtain ⟨bytes, hbytes, h⟩ := map_eq_ok.mp h
    cases h
    have hfour : 4 * (bytes / 4) = bytes := by
      unfold skipBytes at hbytes
      split at hbytes
      · cases hbytes
        omega
      · cases hbytes
    simp only [followStatement, hbytes, List.length_replicate, hfour]
    rfl
  | operation op =>
    cases h
    rw [followStatement, Operation.size, Operation.length_pieces]

theorem emitStatement_of_pieces {s : Statement} (h : s.pieces? = .ok (some pieces)) :
    l.emitStatement implicit t line s =
      (l.emit implicit t line s.isOperation pieces).map fun (row, l') => ([row], l') := by
  have hrow : (do
      let (row, l') ← l.emit implicit t line s.isOperation pieces
      return ([row], l') : Except AssemblyError (List Row × Locations)) =
      (l.emit implicit t line s.isOperation pieces).map fun (row, l') => ([row], l') := by
    cases l.emit implicit t line s.isOperation pieces <;> rfl
  cases s with
  | global names | external names | openSection name | finish => cases h
  | words values | skip n | operation op =>
    rw [← hrow, emitStatement, h]
    · rfl
    · exact nofun

theorem emit_of_pieces {s : Statement} (hpieces : s.pieces? = .ok (some pieces))
    (h : l.emitStatement implicit t line s = .ok (rows, l')) :
    ∃ row, rows = [row] ∧ l.emit implicit t line s.isOperation pieces = .ok (row, l') := by
  rw [emitStatement_of_pieces hpieces] at h
  obtain ⟨⟨row, _⟩, hemit, hrow⟩ := map_eq_ok.mp h
  obtain ⟨rfl, rfl⟩ := Prod.mk.inj hrow
  exact ⟨row, rfl, hemit⟩

theorem emitStatement_eq_ok {s : Statement}
    (h : l.emitStatement implicit t line s = .ok (rows, l')) :
    (rows = [] ∧ l.followStatement implicit s = .ok l' ∧
      ∀ name, l'.counter name = l.counter name) ∨ ∃ pieces row,
      s.pieces? = .ok (some pieces) ∧ rows = [row] ∧
        l.emit implicit t line s.isOperation pieces = .ok (row, l') := by
  cases s with
  | global names | external names | finish =>
    cases h
    exact .inl ⟨rfl, rfl, fun _ => rfl⟩
  | openSection name =>
    cases h
    exact .inl ⟨rfl, rfl, fun _ => counter_enter⟩
  | words values | operation op =>
    obtain ⟨row, hrow⟩ := emit_of_pieces rfl h
    exact .inr ⟨_, row, rfl, hrow⟩
  | skip n =>
    obtain ⟨_, hpieces, -⟩ := bind_eq_ok.mp h
    obtain ⟨_, -, rfl⟩ := map_eq_ok.mp hpieces
    obtain ⟨row, hrow⟩ := emit_of_pieces hpieces h
    exact .inr ⟨_, row, hpieces, hrow⟩

theorem emitLine_eq : l.emitLine implicit t n = (do
    let l₁ ← l.followLabel implicit n.line.label
    match n.line.statement with
    | some s => l₁.emitStatement implicit t n.number s
    | none => return ([], l₁)) := by
  unfold emitLine
  cases n.line.label <;> rfl

theorem emitLine_eq_ok (h : l.emitLine implicit t n = .ok (rows, l')) :
    ∃ l₁, l.followLabel implicit n.line.label = .ok l₁ ∧
      (match n.line.statement with
        | some s => l₁.emitStatement implicit t n.number s
        | none => .ok ([], l₁)) = .ok (rows, l') := by
  rw [emitLine_eq] at h
  exact bind_eq_ok.mp h

/-- What an emission makes of a line. -/
theorem emitLine_rows (hl : l.Sound) (h : l.emitLine implicit t n = .ok (rows, l')) :
    l.followLine implicit n.line = .ok l' ∧
      (∀ row ∈ rows, ∃ pieces slots, row.IsOf t n pieces slots) ∧
      ∀ name, Tiles name (l.counter name) rows (l'.counter name) := by
  obtain ⟨l₁, hlabel, h⟩ := emitLine_eq_ok h
  obtain ⟨hl₁, -, hcounter⟩ := section_followLabel hl hlabel
  cases hs : n.line.statement with
  | none =>
    rw [hs] at h
    cases h
    refine ⟨bind_eq_ok.mpr ⟨_, hlabel, by rw [hs]; rfl⟩, by rintro _ ⟨⟩, fun name => ?_⟩
    exact (hcounter name).symm
  | some s =>
    rw [hs] at h
    rcases emitStatement_eq_ok h with ⟨rfl, hwalk, hsame⟩ | ⟨pieces, row, hpieces, rfl, hemit⟩
    · refine ⟨bind_eq_ok.mpr ⟨_, hlabel, by rw [hs]; exact hwalk⟩, by rintro _ ⟨⟩, fun name => ?_⟩
      rw [hsame, hcounter]
      rfl
    · have hwalk : l₁.followStatement implicit s = .ok l' := by
        rw [followStatement_of_pieces hpieces, put_of_emit hemit]
      obtain ⟨_, slots, -, -, -, hslots, hwords, hrelocations, hline, hcode⟩ := emit_eq_ok hemit
      refine ⟨bind_eq_ok.mpr ⟨_, hlabel, by rw [hs]; exact hwalk⟩, ?_, fun name => ?_⟩
      · rintro r hr
        obtain rfl := List.mem_singleton.mp hr
        exact ⟨pieces, slots, hline, ⟨s, hs, hpieces, hcode⟩, hslots, hwords, hrelocations⟩
      · rw [← hcounter]
        exact tiles_of_emit hl₁ hemit name

theorem emitLines_cons {rest : Program} :
    l.emitLines implicit t (n :: rest) = .ok (rows, l') ↔
      ∃ first l₁ more, l.emitLine implicit t n = .ok (first, l₁) ∧
        l₁.emitLines implicit t rest = .ok (more, l') ∧ rows = first ++ more := by
  rw [emitLines]
  cases l.emitLine implicit t n with
  | error e => simp
  | ok result =>
    obtain ⟨first, l₁⟩ := result
    simp only [map_eq_ok, Except.ok.injEq, Prod.mk.injEq]
    constructor
    · rintro ⟨⟨more, _⟩, hrest, rfl, rfl⟩
      exact ⟨first, l₁, more, ⟨rfl, rfl⟩, hrest, rfl⟩
    · rintro ⟨_, _, more, ⟨rfl, rfl⟩, hrest, rfl⟩
      exact ⟨(more, l'), hrest, rfl, rfl⟩

theorem emitLines_append {rest : Program} :
    l.emitLines implicit t (program ++ rest) = .ok (rows, l') ↔
      ∃ before l₁ more, l.emitLines implicit t program = .ok (before, l₁) ∧
        l₁.emitLines implicit t rest = .ok (more, l') ∧ rows = before ++ more := by
  induction program generalizing l rows with
  | nil =>
    simp only [List.nil_append, emitLines, Except.ok.injEq, Prod.mk.injEq]
    constructor
    · exact fun h => ⟨[], l, rows, ⟨rfl, rfl⟩, h, rfl⟩
    · rintro ⟨_, _, _, ⟨rfl, rfl⟩, h, rfl⟩
      exact h
  | cons n program ih =>
    simp only [List.cons_append, emitLines_cons, ih]
    constructor
    · rintro ⟨first, l₁, _, hline, ⟨before, l₂, more, hbefore, hrest, rfl⟩, rfl⟩
      exact ⟨first ++ before, l₂, more, ⟨first, l₁, before, hline, hbefore, rfl⟩, hrest,
        (List.append_assoc ..).symm⟩
    · rintro ⟨_, l₂, more, ⟨first, l₁, before, hline, hbefore, rfl⟩, hrest, rfl⟩
      exact ⟨first, l₁, before ++ more, hline, ⟨before, l₂, more, hbefore, hrest, rfl⟩,
        List.append_assoc ..⟩

/-- What an emission makes of a program. -/
theorem emitLines_rows (hl : l.Sound) (h : l.emitLines implicit t program = .ok (rows, l')) :
    l.follow implicit program = .ok l' ∧
      (∀ row ∈ rows, ∃ n ∈ program, ∃ pieces slots, row.IsOf t n pieces slots) ∧
      ∀ name, Tiles name (l.counter name) rows (l'.counter name) := by
  induction program generalizing l rows with
  | nil =>
    cases h
    exact ⟨rfl, by rintro _ ⟨⟩, fun _ => rfl⟩
  | cons n rest ih =>
    obtain ⟨first, l₁, more, hline, hrest, rfl⟩ := emitLines_cons.mp h
    obtain ⟨hwalk, hfirst, htiles⟩ := emitLine_rows hl hline
    obtain ⟨hwalk', hmore, htiles'⟩ := ih (hl.followLine hwalk) hrest
    refine ⟨bind_eq_ok.mpr ⟨_, hwalk, hwalk'⟩, fun row hrow => ?_, fun name =>
      (htiles name).append (htiles' name)⟩
    rcases List.mem_append.mp hrow with hrow | hrow
    · exact ⟨n, List.mem_cons_self, hfirst row hrow⟩
    · obtain ⟨m, hm, hof⟩ := hmore row hrow
      exact ⟨m, List.mem_cons_of_mem _ hm, hof⟩

theorem opened_of_emit (hl : l.Sound) (h : l.emit implicit t line isCode pieces = .ok (row, l')) :
    row.sectionName ∈ l'.names := by
  obtain ⟨l₁, _, hensure, -, hadvance, -⟩ := emit_eq_ok h
  obtain ⟨hl₁, hcurrent, -, -⟩ := ensure_eq_ok hl hensure
  rw [names_advance hadvance]
  exact hl₁.current _ hcurrent

theorem opened_of_emitLine (hl : l.Sound) (h : l.emitLine implicit t n = .ok (rows, l')) :
    ∀ row ∈ rows, row.sectionName ∈ l'.names := by
  obtain ⟨l₁, hlabel, h⟩ := emitLine_eq_ok h
  obtain ⟨hl₁, -, -⟩ := section_followLabel hl hlabel
  cases hs : n.line.statement with
  | none =>
    rw [hs] at h
    cases h
    rintro _ ⟨⟩
  | some s =>
    rw [hs] at h
    rcases emitStatement_eq_ok h with ⟨rfl, -, -⟩ | ⟨pieces, row, -, rfl, hemit⟩
    · rintro _ ⟨⟩
    · intro r hr
      obtain rfl := List.mem_singleton.mp hr
      exact opened_of_emit hl₁ hemit

/-- Every row is in an opened section, even if there are no words in it. -/
theorem opened_of_emitLines (hl : l.Sound) (h : l.emitLines implicit t program = .ok (rows, l')) :
    ∀ row ∈ rows, row.sectionName ∈ l'.names := by
  induction program generalizing l rows with
  | nil =>
    cases h
    rintro _ ⟨⟩
  | cons n rest ih =>
    obtain ⟨first, l₁, more, hline, hrest, rfl⟩ := emitLines_cons.mp h
    have hl₁ := hl.followLine (emitLine_rows hl hline).1
    intro row hrow
    rcases List.mem_append.mp hrow with hrow | hrow
    · exact (mem_names_follow (emitLines_rows hl₁ hrest).1).mpr
        (.inl (opened_of_emitLine hl hline row hrow))
    · exact ih hl₁ hrest row hrow

end Locations

end Toolchain32
