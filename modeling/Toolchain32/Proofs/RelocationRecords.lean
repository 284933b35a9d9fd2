import Toolchain32.Proofs.LegalTables
import Toolchain32.Proofs.SectionLines
import Toolchain32.Proofs.SourceNames

/-!
# The relocation records of a section

The records of a section are those of the references that its source has there: one record for each
placeholder, in ascending order, with the name that the source spells and the symbol that the name
has in the end (`records_of_sections`).
-/

namespace Toolchain32

open Fallible

namespace Passes

variable {implicit : Option String} {program : Program} (p : Passes implicit program)
  {row : Row} {name : String} {r : Relocation}

/-- A row is known by its line. -/
theorem row_of_line (hnumbers : program.map (·.number) = List.range' 1 program.length)
    {row' : Row} (hrow : row ∈ p.rows) (hrow' : row' ∈ p.rows) (h : row.line = row'.line) :
    row = row' := by
  have hlines := Locations.lines_of_emitLines p.sound.locations.restarted p.emits
  rw [hnumbers] at hlines
  exact List.inj_on_of_nodup_map (hlines.nodup List.nodup_range') hrow hrow' h

/-- The pieces of a row stand at the offsets that follow its own, without a wrap. -/
theorem offset_of_piece {n : NumberedLine} {pieces : List Piece} {piece : Piece}
    {slots : List (Slot × Option Relocation)} {k : Nat} (hrow : row ∈ p.rows)
    (hof : row.IsOf p.symbols n pieces slots) (hk : pieces[k]? = some piece) :
    (UInt32.ofNat (row.offset + 4 * k)).toNat = row.offset + 4 * k := by
  have hlt : k < pieces.length := (List.getElem?_eq_some_iff.mp hk).1
  have hlength : row.words.length = pieces.length := by
    rw [hof.words, List.length_map, SymbolTable.length_slots hof.resolved]
  have hwithin := (p.tiles row.sectionName).within hrow rfl
  have hsmall := p.sound.locations.small row.sectionName
  rw [Row.bytes, hlength] at hwithin
  exact UInt32.toNat_ofNat_of_lt' (show _ < 0x100000000 by omega)

theorem mem_relocations : r ∈ (Assembled.sectionData p.rows name).relocations ↔
    ∃ row ∈ p.rows, row.sectionName = name ∧ r ∈ row.relocations := by
  simp [Assembled.sectionData, and_assoc]

theorem placeholder_iff (name : String) (o : Word) :
    (∃ r ∈ (Assembled.sectionData p.rows name).relocations, r.offset = o) ↔
      (Assembled.sectionData p.rows name).words[o]? = some .placeholder := by
  rw [words_sectionData (p.nodup_emittedInto name), ← List.mem_map, p.offsets_eq_placeholders]
  simp

theorem ascending_relocations (name : String) :
    ((Assembled.sectionData p.rows name).relocations.map (·.offset)).Pairwise (· < ·) := by
  obtain ⟨count, hcount, hkeys⟩ := p.exists_count name
  have hsmall := p.sound.locations.small name
  have hascending : (wordOffsets 0 count).Pairwise (· < ·) := ascending_wordOffsets (by omega)
  rw [← hkeys] at hascending
  exact hascending.sublist (p.offsets_of_relocations name)

/-- Every record of a section is made for a name that a line puts there. -/
theorem reference_of_relocation (h : r ∈ (Assembled.sectionData p.rows name).relocations) :
    ∃ row ∈ p.rows, ∃ n ∈ program, ∃ pieces slots k, row.IsOf p.symbols n pieces slots ∧
      row.sectionName = name ∧ pieces[k]? = some (.reference r.origin) ∧
      r.offset.toNat = row.offset + 4 * k ∧
      p.symbols.relocation r.origin r.offset = .ok r := by
  obtain ⟨row, hrow, hname, hr⟩ := p.mem_relocations.mp h
  obtain ⟨n, hn, pieces, slots, hof⟩ :=
    (Locations.emitLines_rows p.sound.locations.restarted p.emits).2.1 row hrow
  obtain ⟨k, reference, hk, hrelocation⟩ :=
    SymbolTable.exists_reference hof.resolved (hof.relocations ▸ hr)
  obtain ⟨hoffset, rfl, -⟩ := SymbolTable.relocation_eq_ok p.describes.sound hrelocation
  refine ⟨row, hrow, n, hn, pieces, slots, k, hof, hname, hk, ?_, hoffset ▸ hrelocation⟩
  rw [hoffset, p.offset_of_piece hrow hof hk]

end Passes

namespace Translation

variable {u : Translation} {name sectionName : String} {offset : Nat} {r : Relocation}

section

variable {p : Passes u.options.implicitSection u.program}
  (hp : u.assembled = .ofRows p.survey p.symbols p.rows)

include hp

/-- The references of a source are the pieces of its rows that are names. -/
theorem refers_iff : u.Refers name sectionName offset ↔
    ∃ row ∈ p.rows, ∃ n ∈ u.program, ∃ pieces slots k, row.IsOf p.symbols n pieces slots ∧
      row.sectionName = sectionName ∧ pieces[k]? = some (.reference name) ∧
      offset = row.offset + 4 * k := by
  have hlisting : u.assembled.listing = p.rows := by rw [hp]; rfl
  rw [refers_iff_piece]
  constructor
  · rintro ⟨n, _, s, pieces, k, ⟨before, after, hprogram, hsection, rfl⟩, hs, hpieces, hk, rfl⟩
    obtain ⟨row, hrow, slots, hof, hopened, hoffset⟩ :=
      p.exists_row hprogram numbers_program hs hpieces
    obtain rfl := Option.some.inj (hsection.symm.trans hopened)
    have hn : n ∈ u.program := hprogram ▸ List.mem_append_right before List.mem_cons_self
    exact ⟨row, hrow, n, hn, pieces, slots, k, hof, rfl, hk, by rw [hoffset, hlisting]⟩
  · rintro ⟨row, hrow, n, hn, pieces, _, k, hof, rfl, hk, rfl⟩
    obtain ⟨before, after, hprogram⟩ := List.append_of_mem hn
    obtain ⟨s, hs, hpieces, -⟩ := hof.content
    -- The row that the line is emitted as is the given one, since both have its number.
    obtain ⟨row', hrow', _, hof', hopened, hoffset⟩ :=
      p.exists_row hprogram numbers_program hs hpieces
    obtain rfl := p.row_of_line numbers_program hrow hrow' (hof.line.trans hof'.line.symm)
    exact ⟨n, row.offset, s, pieces, k, ⟨before, after, hprogram, hopened, hlisting ▸ hoffset⟩,
      hs, hpieces, hk, rfl⟩

/-- The records of a section are those of the references there. -/
theorem refers_iff_relocation : u.Refers name sectionName offset ↔
    ∃ r ∈ (Assembled.sectionData p.rows sectionName).relocations,
      r.offset.toNat = offset ∧ r.origin = name := by
  rw [refers_iff hp]
  constructor
  · rintro ⟨row, hrow, n, -, pieces, slots, k, hof, hname, hk, rfl⟩
    obtain ⟨r, hr, hrelocation⟩ := SymbolTable.exists_relocation hof.resolved hk
    obtain ⟨hoffset, horigin, -⟩ := SymbolTable.relocation_eq_ok p.describes.sound hrelocation
    refine ⟨r, p.mem_relocations.mpr ⟨row, hrow, hname, hof.relocations ▸ hr⟩, ?_, horigin⟩
    rw [hoffset, p.offset_of_piece hrow hof hk]
  · rintro ⟨r, hr, rfl, rfl⟩
    obtain ⟨row, hrow, n, hn, pieces, slots, k, hof, hname, hk, hoffset, -⟩ :=
      p.reference_of_relocation hr
    exact ⟨row, hrow, n, hn, pieces, slots, k, hof, hname, hk, hoffset⟩

/-- A record refers to the symbol that the object has for its origin. -/
theorem targets_of_relocation {o : Word} (h : p.symbols.relocation name o = .ok r) :
    ∃ e, u.object.symbol? r.origin = some e ∧ r.Targets u.object.symbols e := by
  have ht := p.describes.sound
  obtain ⟨-, rfl, e, he, hname, htargets⟩ := SymbolTable.relocation_eq_ok ht h
  rw [object_eq hp]
  exact ⟨e, hname ▸ SymbolTable.find?_name_of_mem ht he, htargets⟩

end

structure RecordsOf (u : Translation) (sectionName : String) (data : SectionData) : Prop where
  ascending : (data.relocations.map (·.offset)).Pairwise (· < ·)
  /-- There is a record for each placeholder, and for no other word. -/
  placeholders : ∀ o, (∃ r ∈ data.relocations, r.offset = o) ↔ data.words[o]? = some .placeholder
  /-- Its origin is the name that the source spells at its offset. -/
  references : ∀ name offset, u.Refers name sectionName offset ↔
    ∃ r ∈ data.relocations, r.offset.toNat = offset ∧ r.origin = name
  /-- Its kind, its symbol and its addend follow from the symbol that the origin has in the end. -/
  symbols : ∀ r ∈ data.relocations, ∃ e, u.object.symbol? r.origin = some e ∧
    r.Targets u.object.symbols e
  /-- They say where the source has the section or the label of that name. -/
  places : ∀ r ∈ data.relocations, u.Record r.origin r

/-- The relocation records of every section are exactly those of the references that the source has
there. -/
theorem records_of_sections (u : Translation) : ∀ s ∈ u.object.sections,
    ∃ data, u.object.data? s.name = some data ∧ u.RecordsOf s.name data := by
  obtain ⟨p, hp⟩ := u.exists_passes
  intro s hs
  rw [object_eq hp] at hs ⊢
  obtain ⟨hopened, -⟩ := p.sectionName_of_mem hs
  refine ⟨_, p.data?_eq hopened, p.ascending_relocations s.name, p.placeholder_iff s.name,
    fun name offset => refers_iff_relocation hp, fun r hr => ?_, fun r hr => ?_⟩
  all_goals obtain ⟨_, _, _, _, _, _, _, _, _, _, _, hrelocation⟩ := p.reference_of_relocation hr
  · exact targets_of_relocation hp hrelocation
  · exact record_of_relocation hp hrelocation

/-- References to a section, a local label, a global one and an external name, before the lines that
tell which of them they are. -/
def forwardText : String :=
  ".section d\n.word t, 7, l\n.section t\nhalt\nl: call g\n" ++
    ".section d\ng: .word e\n.global g\n.extern e"

theorem records_of_sections_forward :
    ∃ u data, ofSource? "a" {} forwardText = some u ∧ ⟨0, "d", 16⟩ ∈ u.object.sections ∧
      u.object.data? "d" = some data ∧ u.RecordsOf "d" data ∧
      data.relocations = [⟨0, .sectionRelative, "t", 0, "t"⟩,
        ⟨8, .sectionRelative, "t", 4, "l"⟩, ⟨12, .absolute, "e", 0, "e"⟩] ∧
      u.Refers "t" "d" 0 ∧ u.Refers "l" "d" 8 ∧ u.Refers "e" "d" 12 := by
  let u := (ofSource? "a" {} forwardText).get (by decide +kernel)
  have hsection : ⟨0, "d", 16⟩ ∈ u.object.sections := by decide +kernel
  obtain ⟨data, hdata, hrecords⟩ := records_of_sections u _ hsection
  have hlisted : (u.object.data? "d").map (·.relocations) = some [⟨0, .sectionRelative, "t", 0, "t"⟩,
      ⟨8, .sectionRelative, "t", 4, "l"⟩, ⟨12, .absolute, "e", 0, "e"⟩] := by decide +kernel
  rw [hdata] at hlisted
  have hrelocations := Option.some.inj hlisted
  have href := hrecords.references
  simp only [hrelocations] at href
  exact ⟨u, data, (Option.some_get _).symm, hsection, hdata, hrecords, hrelocations,
    (href "t" 0).mpr (by simp), (href "l" 8).mpr (by simp), (href "e" 12).mpr (by simp)⟩

end Translation

end Toolchain32
