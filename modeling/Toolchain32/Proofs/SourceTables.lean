import Toolchain32.Proofs.AcceptedSources
import Toolchain32.Proofs.SourceNames

/-!
# The tables of a source

The section table and the symbol table of an object follow from its source line by line: sections
stand in the order of their first opening, labels in the order of their lines, and behind them the
names that are only declared (`tables_of_source`).
-/

namespace Toolchain32

def Section.symbol (s : Section) : ObjectSymbol :=
  ⟨s.id + 1, s.name, 0, .ofSection, s.id + 1, .localOnly⟩

namespace Passes

variable {implicit : Option String} {program : Program} (p : Passes implicit program)
  {e : ObjectSymbol}

theorem id_of_section {i : Nat} {s : Section} (h : p.survey.sections[i]? = some s) : s.id = i := by
  rw [Survey.sections, List.getElem?_map, List.getElem?_zipIdx, Option.map_map,
    Option.map_eq_some_iff] at h
  obtain ⟨c, -, rfl⟩ := h
  exact Nat.zero_add i

/-- Entries that come first and have the names of the sections are the symbols of the section
table. -/
theorem eq_symbols_of_sections {first rest : List ObjectSymbol}
    (hentries : p.symbols.entries = first ++ rest)
    (hnames : first.map (·.name) = p.survey.locations.names) :
    first = p.survey.sections.map Section.symbol := by
  have hsections : p.survey.sections.map (·.name) = first.map (·.name) :=
    p.sectionNames_object.trans hnames.symm
  refine List.ext_getElem? fun i => ?_
  have hname := congrArg (·[i]?) hsections
  simp only [List.getElem?_map] at hname ⊢
  cases he : first[i]? with
  | none =>
    rw [he, Option.map_none, Option.map_eq_none_iff] at hname
    rw [hname, Option.map_none]
  | some e =>
    rw [he] at hname
    obtain ⟨s, hs, hname⟩ := Option.map_eq_some_iff.mp hname
    have hmem : e ∈ first := List.mem_of_getElem? he
    have hsection := p.describes.isSection_of_name (hentries ▸ List.mem_append_left rest hmem)
      (hnames ▸ List.mem_map_of_mem hmem)
    have hid : e.id = i + 1 := by
      refine p.describes.sound.ids (i + 1) e ?_
      rw [SymbolTable.toList, List.getElem?_cons_succ, hentries, List.getElem?_append_left
        (List.getElem?_eq_some_iff.mp he).1, he]
    rw [hs, hsection.eq, hid, Option.map_some, Section.symbol, p.id_of_section hs, hname]

/-- The symbols are those of the sections, of the labels and of the names that are only declared. -/
theorem exists_symbols : ∃ labels opens,
    p.symbols.entries = p.survey.sections.map Section.symbol ++ labels ++ opens ∧
      labels.map (·.name) = p.survey.labels.map (·.name) ∧
      opens.map (·.name) = (program.declared.filter
        (· ∉ p.survey.locations.names ++ p.survey.labels.map (·.name))).eraseDups := by
  obtain ⟨known, opens, hentries, hknown, hopens⟩ :=
    List.map_eq_append_iff.mp (SymbolTable.names_of_declareAll p.declared)
  obtain ⟨first, labels, rfl, hfirst, hlabels⟩ := List.map_eq_append_iff.mp hknown
  have hsections := p.eq_symbols_of_sections (hentries.trans (List.append_assoc ..)) hfirst
  exact ⟨labels, opens, hsections ▸ hentries, hlabels, hopens⟩

/-- The owner of a label is the symbol of its section. -/
theorem exists_owner {l : Label} (hl : l ∈ p.survey.labels) (he : p.symbols.IsLabel l e) :
    ∃ s ∈ p.survey.sections, s.name = l.sectionName ∧ e.owner = s.symbol.id := by
  have ht := p.describes.sound
  obtain ⟨o, ho, hkind, hname⟩ := he.owner
  obtain ⟨s, hs, hsection⟩ := List.mem_map.mp (p.sectionNames_object ▸ p.sound.opened l hl)
  refine ⟨s, hs, hsection, ?_⟩
  have howner : o ∈ p.symbols.entries := by
    rcases List.mem_cons.mp (List.mem_of_getElem? ho) with rfl | hmem
    · cases hkind
    · exact hmem
  have hsymbol : s.symbol ∈ p.symbols.entries := by
    obtain ⟨labels, opens, hentries, -⟩ := p.exists_symbols
    rw [hentries, List.append_assoc]
    exact List.mem_append_left _ (List.mem_map_of_mem hs)
  rw [← SymbolTable.byId?_eq_some ht ho,
    SymbolTable.eq_of_name ht howner hsymbol (hname.trans hsection.symm)]

end Passes

namespace Translation

variable {u : Translation} {e : ObjectSymbol}

structure IsLabel (u : Translation) (e : ObjectSymbol) : Prop where
  kind : e.kind = .plain
  place : ∃ s ∈ u.object.sections, ∃ offset, u.HasLabel e.name s.name offset ∧
    e.value = UInt32.ofNat offset ∧ e.owner = s.symbol.id
  binding : e.binding = if e.name ∈ u.program.globals then .global else .localOnly

structure IsOpen (u : Translation) (e : ObjectSymbol) : Prop where
  kind : e.kind = .plain
  value : e.value = 0
  owner : e.owner = 0
  binding : e.binding = if e.name ∈ u.program.externals then .external else .undefined

variable {p : Passes u.options.implicitSection u.program}

theorem isLabel_of_name (hp : u.assembled = .ofRows p.survey p.symbols p.rows)
    (he : e ∈ p.symbols.entries) (hname : e.name ∈ p.survey.labels.map (·.name)) :
    u.IsLabel e := by
  obtain ⟨l, hl, hname⟩ := List.mem_map.mp hname
  obtain ⟨_, sectionName, offset⟩ := l
  obtain rfl := hname
  have hlabel := p.describes.isLabel_of_name he hl rfl
  have hglobal := SymbolTable.global_iff p.sound p.declared hl he rfl
  refine ⟨hlabel.kind, ?_, ?_⟩
  · obtain ⟨s, hs, rfl, howner⟩ := p.exists_owner hl hlabel
    rw [object_eq hp]
    exact ⟨s, hs, offset, (hasLabel_iff hp).mpr hl, hlabel.value, howner⟩
  · split
    · exact hglobal.mpr ‹_›
    · cases hbinding : e.binding with
      | localOnly => rfl
      | global => exact absurd (hglobal.mp hbinding) ‹_›
      | external | undefined => cases hbinding ▸ hlabel.binding

theorem isOpen_of_name (he : e ∈ p.symbols.entries) (hsection : e.name ∉ p.survey.locations.names)
    (hlabel : e.name ∉ p.survey.labels.map (·.name)) : u.IsOpen e := by
  have hopen := p.describes.isOpen_of_name he hsection hlabel
  have hexternal := SymbolTable.external_iff p.sound p.declared he
  refine ⟨hopen.kind, hopen.value, hopen.owner, ?_⟩
  split
  · exact hexternal.mpr ‹_›
  · cases hbinding : e.binding with
    | undefined => rfl
    | external => exact absurd (hexternal.mp hbinding) ‹_›
    | localOnly | global => cases hbinding ▸ hopen.binding

/-- Behind the reserved entry and the sections stand the labels in the order of their lines, then
the other names that directives mention, in the order of their first mention. -/
structure HasSymbols (u : Translation) (labels opens : List ObjectSymbol) : Prop where
  symbols : u.object.symbols =
    .null :: (u.object.sections.map Section.symbol ++ labels ++ opens)
  labelNames : labels.map (·.name) = u.program.labels
  labels : ∀ e ∈ labels, u.IsLabel e
  openNames : opens.map (·.name) = (u.program.declared.filter
    (· ∉ u.object.sectionNames ++ u.program.labels)).eraseDups
  opens : ∀ e ∈ opens, u.IsOpen e

theorem exists_symbols (u : Translation) : ∃ labels opens, u.HasSymbols labels opens := by
  obtain ⟨p, hp⟩ := u.exists_passes
  have hknown := Survey.labels_of_ofProgram p.surveyed
  obtain ⟨labels, opens, hentries, hlabels, hopens⟩ := p.exists_symbols
  refine ⟨labels, opens, ?_, hlabels.trans hknown, fun e he => ?_, ?_, fun e he => ?_⟩
  · rw [object_eq hp]
    exact congrArg (ObjectSymbol.null :: ·) hentries
  · refine isLabel_of_name hp ?_ (hlabels ▸ List.mem_map_of_mem he)
    rw [hentries]
    exact List.mem_append_left _ (List.mem_append_right _ he)
  · rw [hopens, hknown, object_eq hp, p.sectionNames_object]
  · have hname := hopens ▸ List.mem_map_of_mem (f := ObjectSymbol.name) he
    simp only [List.mem_eraseDups, List.mem_filter, List.mem_append, not_or,
      decide_eq_true_eq] at hname
    refine isOpen_of_name ?_ hname.2.1 hname.2.2
    rw [hentries]
    exact List.mem_append_right _ he

structure HasTables (u : Translation) : Prop where
  sectionIds : ∀ (i : Nat) (s : Section), u.object.sections[i]? = some s → s.id = i
  symbolIds : ∀ (i : Nat) (e : ObjectSymbol), u.object.symbols[i]? = some e → e.id = i
  /-- Sections are in the order of their first opening. -/
  sections : u.object.sectionNames =
    (u.program.openedNames u.options.implicitSection).eraseDups
  /-- Every section has data, and nothing else has. -/
  data : u.object.data.map (·.1) = u.object.sectionNames
  symbols : ∃ labels opens, u.HasSymbols labels opens
  nodup : (u.object.symbols.tail.map (·.name)).Nodup

/-- The tables of every source that is assembled are well formed. -/
theorem tables_of_source (u : Translation) : u.HasTables := by
  obtain ⟨p, hp⟩ := u.exists_passes
  have ht := p.describes.sound
  have hwalk := (Survey.follow_of_lines .empty p.surveyed).1
  refine ⟨?_, ?_, ?_, ?_, u.exists_symbols, ?_⟩
  all_goals rw [object_eq hp]
  · exact fun i s hs => p.id_of_section hs
  · exact ht.ids
  · rw [p.sectionNames_object, Locations.names_of_empty hwalk]
  · rw [p.dataNames_object, p.sectionNames_object]
  · exact ht.nodup

/-- Counted in words, the ids of the sections and the symbols are their places too. -/
theorem table_ids_in_words (u : Translation)
    (hcount : u.object.symbols.length ≤ 0x100000000) :
    (∀ (i : Nat) (s : Section), u.object.sections[i]? = some s → s.id = (UInt32.ofNat i).toNat) ∧
      ∀ (i : Nat) (e : ObjectSymbol), u.object.symbols[i]? = some e →
        e.id = (UInt32.ofNat i).toNat := by
  obtain ⟨p, hp⟩ := u.exists_passes
  obtain ⟨labels, opens, h⟩ := u.exists_symbols
  have hsections : u.object.sections.length ≤ u.object.symbols.length := by
    simp only [h.symbols, List.length_cons, List.length_append, List.length_map]
    omega
  rw [object_eq hp] at hsections hcount ⊢
  exact ⟨ids_in_words (fun _ _ hs => p.id_of_section hs) (hsections.trans hcount),
    ids_in_words p.describes.sound.ids hcount⟩

theorem tables_of_source_interleaved :
    ∃ u, ofSource? "a" {} ".global x, m\nl: .section d\nm: .word l\n.extern y, x\n.section .text" =
        some u ∧
      u.object.symbols.map (·.name) = ["", ".text", "d", "l", "m", "x", "y"] ∧ u.HasTables := by
  let u := (ofSource? "a" {}
    ".global x, m\nl: .section d\nm: .word l\n.extern y, x\n.section .text").get
      (by decide +kernel)
  have hnames : u.object.symbols.map (·.name) = ["", ".text", "d", "l", "m", "x", "y"] := by
    decide +kernel
  exact ⟨u, (Option.some_get _).symm, hnames, tables_of_source u⟩

end Translation

end Toolchain32
