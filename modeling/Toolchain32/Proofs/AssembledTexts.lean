import Mathlib.Data.List.Perm.Subperm
import Toolchain32.Proofs.AssembledObjects
import Toolchain32.Proofs.LegalTables
import Toolchain32.Proofs.WideIds

/-!
# The text of an assembled object

What is assembled can be read back as long as its symbols have ids of at most five digits. With one
symbol more the text is refused, at the first row whose id runs into the next column.
-/

namespace Toolchain32

open Fallible Text

namespace TableName

variable {name : String}

theorem isOrigin (h : TableName name) : Object.IsOrigin name.toList where
  solid := h.isWord.solid
  head hhead := absurd (h.toNat_of_mem '(' (List.mem_of_head? hhead)) (by decide)
  last hlast := absurd (h.toNat_of_mem ')' (List.mem_of_getLast? hlast)) (by decide)

end TableName

namespace Passes

variable {implicit : Option String} {program : Program} (p : Passes implicit program)

theorem symbols_object : p.object.symbols = ObjectSymbol.null :: p.symbols.entries := rfl

theorem sectionId_object (i : Nat) (s : Section) (h : p.object.sections[i]? = some s) :
    s.id = i := by
  have hsections : p.object.sections = p.survey.sections := rfl
  rw [hsections, Survey.sections, List.getElem?_map, Option.map_eq_some_iff] at h
  obtain ⟨⟨c, j⟩, hc, rfl⟩ := h
  rw [List.getElem?_zipIdx, Option.map_eq_some_iff] at hc
  obtain ⟨c', -, hpair⟩ := hc
  have hj := (Prod.mk.inj hpair).2
  simp only
  omega

theorem sectionId_lt : ∀ s ∈ p.object.sections, s.id < p.object.sections.length := by
  intro s hs
  obtain ⟨i, hi⟩ := List.getElem?_of_mem hs
  rw [p.sectionId_object i s hi]
  exact (List.getElem?_eq_some_iff.mp hi).1

theorem mem_sectionSymbols {e : ObjectSymbol} :
    e ∈ p.object.sectionSymbols ↔ e ∈ p.symbols.entries ∧ e.kind = .ofSection := by
  rw [Object.sectionSymbols, symbols_object, List.filter_cons_of_neg (by decide), List.mem_filter,
    beq_iff_eq]

/-- The symbols of sections are those of the survey. -/
theorem mem_names_sectionSymbols {name : String} :
    name ∈ p.object.sectionSymbols.map (·.name) ↔ name ∈ p.survey.locations.names := by
  constructor
  · intro h
    obtain ⟨e, he, rfl⟩ := List.mem_map.mp h
    obtain ⟨he, hkind⟩ := p.mem_sectionSymbols.mp he
    rcases p.describes.entries e he with ⟨name, hname, hsection⟩ | ⟨l, -, hlabel⟩ | hopen
    · rwa [hsection.name]
    · rw [hlabel.kind] at hkind
      cases hkind
    · rw [hopen.kind] at hkind
      cases hkind
  · intro h
    obtain ⟨e, he, hsection⟩ := p.describes.sections name h
    exact List.mem_map.mpr ⟨e, p.mem_sectionSymbols.mpr ⟨he, hsection.kind⟩, hsection.name⟩

theorem nodup_sectionSymbols : (p.object.sectionSymbols.map (·.name)).Nodup := by
  have hfilter : p.object.sectionSymbols = p.symbols.entries.filter (·.kind == .ofSection) := by
    rw [Object.sectionSymbols, symbols_object, List.filter_cons_of_neg (by decide)]
  rw [hfilter]
  exact p.describes.sound.nodup.sublist (List.filter_sublist.map _)

/-- Every section has a symbol, and the reserved entry is one more. -/
theorem length_sections_lt : p.object.sections.length < p.object.symbols.length := by
  have hnodup : p.object.sectionNames.Nodup := p.object_sound.sections
  have hsubset : p.object.sectionNames ⊆ p.symbols.entries.map (·.name) := by
    intro name hname
    rw [p.sectionNames_object] at hname
    obtain ⟨e, he, hsection⟩ := p.describes.sections name hname
    exact List.mem_map.mpr ⟨e, he, hsection.name⟩
  have hlength := (List.subperm_of_subset hnodup hsubset).length_le
  rw [Object.sectionNames, List.length_map, List.length_map] at hlength
  rw [symbols_object, List.length_cons]
  omega

section

variable (himplicit : ∀ name ∈ implicit, TableName name)
  (hlegal : ∀ n ∈ program, n.line.Legal)

include himplicit hlegal

theorem owner_le_id : ∀ e ∈ p.object.symbols, e.owner ≤ e.id := by
  intro e he
  rcases List.mem_cons.mp he with rfl | he
  · exact Nat.le_refl 0
  · exact (p.legal_symbols himplicit hlegal).owners e he

theorem spelled : p.object.Spelled where
  names e he := by
    rcases List.mem_cons.mp he with rfl | he
    · rintro c ⟨⟩
    · exact ((p.legal_symbols himplicit hlegal).names e he).isWord.solid
  sectionNames s hs :=
    (p.tableName_of_section himplicit hlegal (p.sectionName_of_mem hs).1).isWord
  relocations e he r hr := by
    rw [(p.mem_data.mp he).2] at hr
    obtain ⟨hsymbol, horigin⟩ := p.tableNames_of_relocation himplicit hlegal hr
    exact ⟨hsymbol.isWord, horigin.isOrigin⟩
  listed e he := by
    rw [p.sectionNames_object]
    exact p.mem_names_sectionSymbols.mp (List.mem_map_of_mem he)

theorem printable (hcount : p.object.symbols.length ≤ 100000) : p.object.Printable where
  toSpelled := p.spelled himplicit hlegal
  ids := p.describes.sound.ids
  count := hcount
  owners e he := by
    obtain ⟨i, hi⟩ := List.getElem?_of_mem he
    have hlt := (List.getElem?_eq_some_iff.mp hi).1
    have hid : e.id = i := p.describes.sound.ids i e hi
    have howner := p.owner_le_id himplicit hlegal e he
    omega
  sectionIds s hs := by
    have hid := p.sectionId_lt s hs
    have hless := p.length_sections_lt
    omega
  distinct := p.nodup_sectionSymbols
  keys name := by
    rw [p.mem_names_sectionSymbols, Object.dataNames, p.dataNames_object]
  words := p.object_sound.words

end

end Passes

/-- The text of an assembled object is read back if there are at most 100000 symbols, the reserved
one included, and refused if there are more: at the row of the section or of the symbol whose id is
100000. -/
theorem parse_print_assembled {options : AssemblyOptions} {source : String} {a : Assembled}
    (himplicit : ∀ name ∈ options.implicitSection, isSectionName name.toList = true)
    (h : assemble options source = .ok a) :
    (a.object.symbols.length ≤ 100000 →
      ∃ o, Object.parse a.object.print = .ok o ∧ o.Same a.object) ∧
    (100000 < a.object.symbols.length → Object.parse a.object.print = .error
      (if 100000 < a.object.sections.length then ⟨100004, .sectionColumns⟩
      else ⟨a.object.sections.length + 100007, .symbolId⟩)) := by
  obtain ⟨program, hread, h⟩ := bind_eq_ok.mp h
  obtain ⟨p, rfl⟩ := Program.assemble_eq_ok h
  have hlegal := Program.legal_readLines hread
  have hspelled := p.spelled himplicit hlegal
  have hobject : (Assembled.ofRows p.survey p.symbols p.rows).object = p.object := rfl
  rw [hobject]
  constructor
  · intro hcount
    have hprintable := p.printable himplicit hlegal hcount
    exact ⟨p.object.tidied, Object.parse_print hprintable, Object.tidied_same hprintable⟩
  · intro hmany
    -- The section table is read first, so it decides if both tables are too long.
    split
    · rename_i hwide
      exact Object.parse_print_of_wideSections hspelled p.sectionId_object hwide
    · rename_i hnarrow
      refine Object.parse_print_of_wideSymbols hspelled (fun s hs => ?_) p.describes.sound.ids
        (p.owner_le_id himplicit hlegal) (fun e he hid => ?_) hmany
      · have hid := p.sectionId_lt s hs
        omega
      · rcases List.mem_cons.mp he with rfl | he
        · exact absurd rfl hid
        · rintro hempty
          have hname := (p.legal_symbols himplicit hlegal).names e he
          rw [hempty] at hname
          cases hname

/-- A source with an empty section, a reference to a section, a local label and an open name. -/
theorem parse_print_assembled_references :
    ∃ a, assemble {} ".extern x\na: .word a, x, e\n.section e" = .ok a ∧
      ∃ o, Object.parse a.object.print = .ok o ∧ o.Same a.object := by
  have hsome : ((assemble {} ".extern x\na: .word a, x, e\n.section e").toOption.any fun a =>
      a.object.symbols.length == 5) = true := by
    decide +kernel
  cases h : assemble {} ".extern x\na: .word a, x, e\n.section e" with
  | error e =>
    rw [h] at hsome
    cases hsome
  | ok a =>
    rw [h] at hsome
    have hcount : a.object.symbols.length = 5 := beq_iff_eq.mp hsome
    exact ⟨a, rfl, (parse_print_assembled (by decide) h).1 (by omega)⟩

end Toolchain32
