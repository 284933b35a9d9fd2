import Toolchain32.Link.Merge
import Toolchain32.Proofs.AssembledObjects
import Toolchain32.Proofs.LinkageDirectives
import Toolchain32.Proofs.SpelledValues

/-!
# Names of a source and symbols of its object

A `Translation` is a source with the object that it is assembled into. Its labels and references are
those of its lines, at the places where the lines before them end. The object says the same: of the
labels by its symbols, of the references by its relocation records.
-/

namespace Toolchain32

open Fallible

/-- A source that is assembled, for an artifact of the given name. -/
structure Translation where
  name : String
  options : AssemblyOptions
  source : String
  program : Program
  assembled : Assembled
  read : Program.read source = .ok program
  accepted : assemble options source = .ok assembled

namespace Translation

def ofSource? (name : String) (options : AssemblyOptions) (source : String) :
    Option Translation :=
  match read : Program.read source, accepted : assemble options source with
  | .ok program, .ok assembled =>
    some { name, options, source, program, assembled, read, accepted }
  | _, _ => none

variable (u : Translation)

def object : Object := u.assembled.object

def artifact : Artifact := ⟨u.name, u.object⟩

/-- A line begins in the section that is open there, behind the bytes of the lines before it. -/
def BeginsAt (n : NumberedLine) (sectionName : String) (offset : Nat) : Prop :=
  ∃ before after, u.program = before ++ n :: after ∧
    before.lastOpened.or u.options.implicitSection = some sectionName ∧
    offset = bytesInto (u.assembled.listing.filter (·.line < n.number)) sectionName

def HasLabel (name sectionName : String) (offset : Nat) : Prop :=
  ∃ n, u.BeginsAt n sectionName offset ∧ n.line.label = some name

/-- The word there is that of a value which a line spells out, and the value is the name. -/
def Refers (name sectionName : String) (offset : Nat) : Prop :=
  ∃ n start s i, u.BeginsAt n sectionName start ∧ n.line.statement = some s ∧
    s.values[i]? = some (.symbol name) ∧ offset = start + 4 * (s.leadingWords + i)

theorem objects_of_artifacts (units : List Translation) :
    (units.map (·.artifact)).map (·.object) = units.map (·.object) := by
  rw [List.map_map]
  rfl

variable {u} {name sectionName : String} {offset : Nat}

theorem numbers_program :
    u.program.map (·.number) = List.range' 1 u.program.length :=
  Program.numbers_readLines u.read

theorem exists_passes (u : Translation) :
    ∃ p : Passes u.options.implicitSection u.program,
      u.assembled = .ofRows p.survey p.symbols p.rows := by
  obtain ⟨program, hread, h⟩ := bind_eq_ok.mp u.accepted
  obtain rfl := Except.ok.inj (hread.symm.trans u.read)
  exact Program.assemble_eq_ok h

theorem hasLabel_iff {p : Passes u.options.implicitSection u.program}
    (hp : u.assembled = .ofRows p.survey p.symbols p.rows) :
    u.HasLabel name sectionName offset ↔ ⟨name, sectionName, offset⟩ ∈ p.survey.labels := by
  have hlisting : u.assembled.listing = p.rows := by rw [hp]; rfl
  constructor
  · rintro ⟨n, ⟨before, after, hprogram, hsection, rfl⟩, hname⟩
    obtain ⟨_, hsection', hlabel⟩ := p.exists_label hprogram numbers_program hname
    obtain rfl := Option.some.inj (hsection.symm.trans hsection')
    exact hlisting ▸ hlabel
  · intro hlabel
    rcases Survey.exists_line_of_label .empty p.surveyed hlabel with hnone | hline
    · cases hnone
    obtain ⟨before, n, after, hprogram, hname⟩ := hline
    obtain ⟨_, hsection, hlabel'⟩ := p.exists_label hprogram numbers_program hname
    have hsame := List.inj_on_of_nodup_map p.sound.nodup hlabel hlabel' rfl
    obtain ⟨-, rfl, rfl⟩ := Label.mk.inj hsame
    exact ⟨n, ⟨before, after, hprogram, hsection, hlisting ▸ rfl⟩, hname⟩

theorem label_unique (h : u.HasLabel name sectionName offset) {sectionName' : String}
    {offset' : Nat} (h' : u.HasLabel name sectionName' offset') :
    sectionName = sectionName' ∧ offset = offset' := by
  obtain ⟨p, hp⟩ := u.exists_passes
  have hsame := List.inj_on_of_nodup_map p.sound.nodup ((hasLabel_iff hp).mp h)
    ((hasLabel_iff hp).mp h') rfl
  exact (Label.mk.inj hsame).2

section

variable {p : Passes u.options.implicitSection u.program}
  (hp : u.assembled = .ofRows p.survey p.symbols p.rows)

include hp

theorem object_eq : u.object = p.object := by
  rw [object, hp]
  rfl

theorem symbol_of_label (h : u.HasLabel name sectionName offset) :
    ∃ e ∈ p.symbols.entries, p.symbols.IsLabel ⟨name, sectionName, offset⟩ e ∧
      (e.binding = .global ↔ name ∈ u.program.globals) := by
  have hlabel := (hasLabel_iff hp).mp h
  obtain ⟨e, he, hentry⟩ := p.describes.labels _ hlabel
  have hglobal := SymbolTable.global_iff p.sound p.declared hlabel he hentry.name
  rw [hentry.name] at hglobal
  exact ⟨e, he, hentry, hglobal⟩

theorem symbol_of_section (h : name ∈ u.object.sectionNames) :
    ∃ e ∈ p.symbols.entries, SymbolTable.IsSection name e := by
  rw [object_eq hp, p.sectionNames_object] at h
  exact p.describes.sections name h

/-- A global symbol is that of a label. -/
theorem label_of_global {e : ObjectSymbol} (he : e ∈ p.symbols.entries)
    (hglobal : e.binding = .global) :
    ∃ sectionName offset, u.HasLabel e.name sectionName offset ∧
      p.symbols.IsLabel ⟨e.name, sectionName, offset⟩ e ∧ e.name ∈ u.program.globals := by
  rcases p.describes.entries e he with ⟨_, -, hsection⟩ | ⟨l, hl, hlabel⟩ | hopen
  · rw [hsection.binding] at hglobal
    cases hglobal
  · obtain ⟨_, sectionName, offset⟩ := l
    obtain rfl := hlabel.name
    have hname := SymbolTable.global_iff p.sound p.declared hl he rfl
    exact ⟨sectionName, offset, (hasLabel_iff hp).mpr hl, hlabel, hname.mp hglobal⟩
  · have hbinding := hopen.binding
    rw [hglobal] at hbinding
    cases hbinding

end

theorem object_sound (u : Translation) : u.object.Sound := by
  obtain ⟨p, hp⟩ := u.exists_passes
  rw [object_eq hp]
  exact p.object_sound

theorem section_of_label (h : u.HasLabel name sectionName offset) :
    sectionName ∈ u.object.sectionNames := by
  obtain ⟨p, hp⟩ := u.exists_passes
  rw [object_eq hp, p.sectionNames_object]
  exact p.sound.opened _ ((hasLabel_iff hp).mp h)

theorem not_section_of_label (h : u.HasLabel name sectionName offset) :
    name ∉ u.object.sectionNames := by
  obtain ⟨p, hp⟩ := u.exists_passes
  rw [object_eq hp, p.sectionNames_object]
  exact p.sound.apart _ ((hasLabel_iff hp).mp h)

theorem not_external_of_label (h : u.HasLabel name sectionName offset) :
    name ∉ u.program.externals := by
  obtain ⟨p, hp⟩ := u.exists_passes
  obtain ⟨e, he, hlabel, -⟩ := symbol_of_label hp h
  have hexternal := SymbolTable.external_iff p.sound p.declared he
  rw [hlabel.name] at hexternal
  rw [← hexternal]
  intro hbinding
  have hdefined := hlabel.binding
  rw [hbinding] at hdefined
  cases hdefined

theorem not_external_of_section (h : name ∈ u.object.sectionNames) :
    name ∉ u.program.externals := by
  obtain ⟨p, hp⟩ := u.exists_passes
  obtain ⟨e, he, hsection⟩ := symbol_of_section hp h
  have hexternal := SymbolTable.external_iff p.sound p.declared he
  rw [hsection.name, hsection.binding] at hexternal
  exact fun hname => nomatch hexternal.mpr hname

/-- The names that a source refers to are the references among the pieces of its lines. -/
theorem refers_iff_piece : u.Refers name sectionName offset ↔
    ∃ n start s pieces k, u.BeginsAt n sectionName start ∧ n.line.statement = some s ∧
      s.pieces? = .ok (some pieces) ∧ pieces[k]? = some (.reference name) ∧
      offset = start + 4 * k := by
  constructor
  · rintro ⟨n, start, s, i, hbegins, hs, hvalue, rfl⟩
    obtain ⟨pieces, hpieces⟩ := Statement.exists_pieces_of_values (List.mem_of_getElem? hvalue)
    exact ⟨n, start, s, pieces, _, hbegins, hs, hpieces,
      (Statement.reference_iff hpieces).mpr ⟨i, hvalue, rfl⟩, rfl⟩
  · rintro ⟨n, start, s, pieces, k, hbegins, hs, hpieces, hk, rfl⟩
    obtain ⟨i, hvalue, rfl⟩ := (Statement.reference_iff hpieces).mp hk
    exact ⟨n, start, s, i, hbegins, hs, hvalue, rfl⟩

/-- What the relocation record of a name says: a section stands for itself, a local label for its
place in its section, and any other name for a global symbol. -/
inductive Record (u : Translation) (name : String) (r : Relocation) : Prop
  | ofSection (opened : name ∈ u.object.sectionNames) (kind : r.kind = .sectionRelative)
      (symbol : r.symbol = name) (addend : r.addend = 0)
  | ofLabel (sectionName : String) (offset : Nat) (label : u.HasLabel name sectionName offset)
      (kind : r.kind = .sectionRelative) (symbol : r.symbol = sectionName)
      (addend : r.addend = UInt32.ofNat offset)
  | ofGlobal (known : (∃ sectionName offset, u.HasLabel name sectionName offset) ∧
        name ∈ u.program.globals ∨ name ∈ u.program.externals)
      (kind : r.kind = .absolute) (symbol : r.symbol = name) (addend : r.addend = 0)

theorem record_of_relocation {p : Passes u.options.implicitSection u.program}
    (hp : u.assembled = .ofRows p.survey p.symbols p.rows) {o : Word} {r : Relocation}
    (h : p.symbols.relocation name o = .ok r) : u.Record name r := by
  have hsound := p.describes.sound
  obtain ⟨-, -, e, he, rfl, htargets⟩ := SymbolTable.relocation_eq_ok hsound h
  rcases p.describes.entries e he with ⟨_, hopened, hsection⟩ | ⟨l, hl, hlabel⟩ | hopen
  · obtain rfl := hsection.name
    rw [← p.sectionNames_object, ← object_eq hp] at hopened
    cases htargets with
    | ofSection _ hkind hsymbol haddend => exact .ofSection hopened hkind hsymbol haddend
    | ofLocal _ hplain | ofNamed hplain => cases hsection.kind.symm.trans hplain
  · obtain ⟨_, sectionName, offset⟩ := l
    obtain rfl := hlabel.name
    have hlabel' := (hasLabel_iff hp).mpr hl
    cases htargets with
    | ofSection hkind => cases hlabel.kind.symm.trans hkind
    | ofLocal owner _ _ howner hkind hsymbol haddend =>
      obtain ⟨_, hid, -, hname⟩ := hlabel.owner
      obtain rfl := Option.some.inj (howner.symm.trans (SymbolTable.find?_id_of_byId? hsound hid))
      exact .ofLabel sectionName offset hlabel' hkind (hsymbol.trans hname)
        (haddend.trans hlabel.value)
    | ofNamed _ hshared hkind hsymbol haddend =>
      rcases hshared with hglobal | hexternal
      · have hname := (SymbolTable.global_iff p.sound p.declared hl he rfl).mp hglobal
        exact .ofGlobal (.inl ⟨⟨sectionName, offset, hlabel'⟩, hname⟩) hkind hsymbol haddend
      · cases hexternal ▸ hlabel.binding
  · cases htargets with
    | ofSection hkind => cases hopen.kind.symm.trans hkind
    | ofLocal _ _ hlocal => cases hlocal ▸ hopen.binding
    | ofNamed _ hshared hkind hsymbol haddend =>
      rcases hshared with hglobal | hexternal
      · cases hglobal ▸ hopen.binding
      · have hname := (SymbolTable.external_iff p.sound p.declared he).mp hexternal
        exact .ofGlobal (.inr hname) hkind hsymbol haddend

/-- The data of the section that a reference stands in has its relocation record. -/
theorem exists_record (h : u.Refers name sectionName offset) :
    sectionName ∈ u.object.sectionNames ∧ ∃ data r, (sectionName, data) ∈ u.object.data ∧
      r ∈ data.relocations ∧ r.offset = UInt32.ofNat offset ∧ u.Record name r := by
  obtain ⟨p, hp⟩ := u.exists_passes
  have hlisting : u.assembled.listing = p.rows := by rw [hp]; rfl
  obtain ⟨n, _, s, pieces, k, ⟨before, after, hprogram, hsection, rfl⟩, hs, hpieces, hk, rfl⟩ :=
    refers_iff_piece.mp h
  obtain ⟨hopened, r, hr, hmem⟩ :=
    p.exists_relocation hprogram numbers_program hs hpieces hk hsection
  rw [object_eq hp]
  refine ⟨hopened, _, r, p.mem_data.mpr ⟨p.sectionNames_object ▸ hopened, rfl⟩, hmem, ?_,
    record_of_relocation hp hr⟩
  rw [(SymbolTable.relocation_eq_ok p.describes.sound hr).1, hlisting]

end Translation

end Toolchain32
