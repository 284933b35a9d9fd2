import Toolchain32.Proofs.AssembledObjects
import Toolchain32.Proofs.SectionLines

/-!
# The rows of a listing

Every row of a listing has a source line for itself, and the rows stand in the order of those
lines, whatever sections they belong to (`Passes.inOrder`). The rows of one section tile it: put
behind each other, their words are the words of the section, and each row is told its place by the
words of the rows before it (`Passes.listsSections`).
-/

namespace Toolchain32

/-- The rows have ascending lines, which begin at one line and end before another. -/
structure InOrder (first stop : Nat) (rows : List Row) : Prop where
  ascending : (rows.map (·.line)).Pairwise (· < ·)
  first : ∀ row ∈ rows, first ≤ row.line
  stop : ∀ row ∈ rows, row.line < stop

namespace InOrder

variable {first stop : Nat} {row : Row} {rows : List Row}

theorem nil : InOrder first stop [] := ⟨.nil, nofun, nofun⟩

theorem eq_nil (h : InOrder first first rows) : rows = [] :=
  List.eq_nil_iff_forall_not_mem.mpr fun row hrow =>
    Nat.not_lt.mpr (h.first row hrow) (h.stop row hrow)

/-- Rows behind a row have later lines. -/
theorem tail (h : InOrder first stop (row :: rows)) : InOrder (row.line + 1) stop rows := by
  have hascending := h.ascending
  rw [List.map_cons, List.pairwise_cons] at hascending
  exact {
    ascending := hascending.2
    first := fun r hr => hascending.1 _ (List.mem_map_of_mem hr)
    stop := fun r hr => h.stop r (List.mem_cons_of_mem _ hr) }

/-- If the first line is not that of the first row, then no row has it. -/
theorem skip (h : InOrder first stop (row :: rows)) (hline : row.line ≠ first) :
    InOrder (first + 1) stop (row :: rows) where
  ascending := h.ascending
  first r hr := by
    have hrow := h.first row List.mem_cons_self
    rcases List.mem_cons.mp hr with rfl | hr
    · omega
    · have htail := h.tail.first r hr
      omega
  stop := h.stop

end InOrder

/-- The rows of a listing account for its sections: every row is in one of them, the words of its
rows are the words of the section, at the offsets 0, 4, 8 and so on, and a row stands behind the
words of the rows before it. -/
structure Assembled.ListsSections (a : Assembled) : Prop where
  opened : ∀ row ∈ a.listing, row.sectionName ∈ a.object.sectionNames
  words : ∀ name ∈ a.object.sectionNames, ∃ data, a.object.data? name = some data ∧
    data.words.toList = entriesFrom 0 (wordsInto a.listing name)
  offsets : ∀ before row after, a.listing = before ++ row :: after →
    row.offset = 4 * (wordsInto before row.sectionName).length

namespace Passes

variable {implicit : Option String} {program : Program} (p : Passes implicit program)

theorem inOrder {raws : List (List Char)} (hread : Program.readLines 1 raws = .ok program) :
    InOrder 1 (1 + raws.length) p.rows := by
  have hlines := Locations.lines_of_emitLines p.sound.locations.restarted p.emits
  have hlength := Program.length_le_of_readLines hread
  rw [Program.numbers_readLines hread] at hlines
  have hrange (row : Row) (hrow : row ∈ p.rows) : 1 ≤ row.line ∧ row.line < 1 + program.length :=
    List.mem_range'_1.mp (hlines.subset (List.mem_map_of_mem hrow))
  exact {
    ascending := List.Pairwise.sublist hlines List.pairwise_lt_range'
    first := fun row hrow => (hrange row hrow).1
    stop := fun row hrow => by
      have hline := (hrange row hrow).2
      omega }

theorem listsSections : (Assembled.ofRows p.survey p.symbols p.rows).ListsSections where
  opened row hrow := p.sectionNames_object ▸ p.opened_of_row hrow
  words name hname := by
    have hknown : name ∈ p.survey.locations.names := p.sectionNames_object ▸ hname
    refine ⟨_, p.data?_eq hknown, ?_⟩
    rw [toList_sectionData (p.ascending_emittedInto name), (p.tiles name).emittedInto_eq]
    rfl
  offsets before row after hrows := by
    have htiles := p.tiles row.sectionName
    change p.rows = _ at hrows
    rw [hrows] at htiles
    rw [htiles.offset_eq rfl, Nat.zero_add, bytesInto_eq]

end Passes

end Toolchain32
