import Toolchain32.Proofs.NameShapes
import Toolchain32.Proofs.PassAgreement
import Toolchain32.Proofs.RelocationTargets

/-!
# The names in the tables of a source

The symbols, sections and relocation records of an object have their names from the source, where
every name has the shape of one: `Passes.legal_symbols`. The table keeps its entries in order, so
that the owner of an entry does not stand behind it.
-/

namespace Toolchain32

open Fallible

namespace SymbolTable

variable {t t' : SymbolTable} {name : String} {binding : Binding} {e : ObjectSymbol}

structure Legal (t : SymbolTable) : Prop where
  names : ∀ e ∈ t.entries, TableName e.name
  ids : ∀ e ∈ t.entries, e.id < t.nextId
  owners : ∀ e ∈ t.entries, e.owner ≤ e.id

theorem Legal.push {value : Word} {kind : SymbolKind} {owner : Option Nat} (h : t.Legal)
    (hname : TableName name) (howner : ∀ id ∈ owner, id < t.nextId) :
    (t.push name value kind owner binding).Legal where
  names e he := by
    rcases mem_push.mp he with he | rfl
    · exact h.names e he
    · exact hname
  ids e he := by
    rcases mem_push.mp he with he | rfl
    · exact Nat.lt_succ_of_lt (h.ids e he)
    · exact Nat.lt_succ_self t.nextId
  owners e he := by
    rcases mem_push.mp he with he | rfl
    · exact h.owners e he
    cases kind with
    | ofSection => exact Nat.le_refl _
    | plain =>
      cases owner with
      | none => exact Nat.zero_le _
      | some id => exact Nat.le_of_lt (howner id rfl)

theorem Legal.bind (h : t.Legal) (name : String) (binding : Binding) :
    (t.bind name binding).Legal := by
  cases hfound : t.get? name with
  | none =>
    rw [SymbolTable.bind, hfound]
    exact h
  | some found =>
    have hentries := entries_bind hfound binding
    have hnext : (t.bind name binding).nextId = t.nextId := by rw [SymbolTable.bind, hfound]
    constructor
    all_goals
      rw [hentries]
      intro e he
      obtain ⟨old, hold, rfl⟩ := List.mem_map.mp he
      obtain ⟨hid, hname, -, -, howner⟩ := fields_rebound found.id binding old
    · rw [hname]
      exact h.names old hold
    · rw [hid, hnext]
      exact h.ids old hold
    · rw [hid, howner]
      exact h.owners old hold

theorem Legal.declareGlobal (h : t.Legal) (hname : TableName name)
    (hdeclare : t.declareGlobal name = .ok t') : t'.Legal := by
  unfold SymbolTable.declareGlobal at hdeclare
  split at hdeclare
  · cases hdeclare
    exact h.push hname (by rintro _ ⟨⟩)
  split at hdeclare
  · cases hdeclare
  split at hdeclare
  · cases hdeclare
    exact h.bind name .global
  · cases hdeclare
    exact h

theorem Legal.declareExternal (h : t.Legal) (hname : TableName name)
    (hdeclare : t.declareExternal name = .ok t') : t'.Legal := by
  unfold SymbolTable.declareExternal at hdeclare
  split at hdeclare
  · cases hdeclare
    exact h.push hname (by rintro _ ⟨⟩)
  split at hdeclare
  · cases hdeclare
  split at hdeclare
  · cases hdeclare
  · cases hdeclare
  · cases hdeclare
    exact h.bind name .external
  · cases hdeclare
    exact h.bind name .external

theorem Legal.declare {s : Statement} (h : t.Legal) (hs : s.Legal)
    (hdeclare : t.declare s = .ok t') : t'.Legal := by
  cases s with
  | global names =>
    exact foldlM_preserves
      (fun name hname _ _ h h' => h.declareGlobal (tableName_of_symbolName (hs name hname)) h') h
      hdeclare
  | external names =>
    exact foldlM_preserves
      (fun name hname _ _ h h' => h.declareExternal (tableName_of_symbolName (hs name hname)) h') h
      hdeclare
  | openSection name | words values | skip n | finish | operation op =>
    cases hdeclare
    exact h

theorem Legal.declareAll {program : Program} (h : t.Legal) (hlegal : ∀ n ∈ program, n.line.Legal)
    (hdeclare : t.declareAll program = .ok t') : t'.Legal :=
  declareAll_preserves (fun n hn s hs _ _ h h' => h.declare ((hlegal n hn).statement s hs) h') h
    hdeclare

theorem legal_symbols {s : Survey} (hsections : ∀ name ∈ s.locations.names, TableName name)
    (hlabels : ∀ l ∈ s.labels, TableName l.name) : s.symbols.Legal := by
  have hempty : Legal .empty := ⟨by rintro _ ⟨⟩, by rintro _ ⟨⟩, by rintro _ ⟨⟩⟩
  refine List.foldlRecOn s.labels _ ?_ fun t ht l hl => ht.push (hlabels l hl) fun id hid => ?_
  · exact List.foldlRecOn s.locations.counters _ hempty fun t ht c hc =>
      ht.push (hsections c.1 (List.mem_map_of_mem hc)) (by rintro _ ⟨⟩)
  · obtain ⟨e, he, rfl⟩ := Option.map_eq_some_iff.mp hid
    rw [get?_eq_find?] at he
    exact ht.ids e (List.mem_reverse.mp (List.mem_of_find?_eq_some he))

/-- A relocation record names entries of the table. -/
theorem Describes.entries_of_relocation {s : Survey} (ht : Describes s t) {o : Word}
    {r : Relocation} (h : t.relocation name o = .ok r) :
    (∃ e ∈ t.entries, e.name = r.symbol) ∧ ∃ e ∈ t.entries, e.name = r.origin := by
  obtain ⟨-, horigin, e, he, rfl, htargets⟩ := relocation_eq_ok ht.sound h
  refine ⟨?_, e, he, horigin.symm⟩
  cases htargets with
  | ofSection _ _ hsymbol | ofNamed _ _ _ hsymbol => exact ⟨e, he, hsymbol.symm⟩
  | ofLocal owner hplain hlocal howner _ hsymbol =>
    rcases ht.entries e he with ⟨_, -, hsection⟩ | ⟨l, -, hlabel⟩ | hopen
    · cases hsection.kind.symm.trans hplain
    · -- A section owns the label, and the reserved entry is none.
      obtain ⟨o, ho, hokind, -⟩ := hlabel.owner
      obtain rfl := Option.some.inj (howner.symm.trans (find?_id_of_byId? ht.sound ho))
      rcases List.mem_cons.mp (List.mem_of_getElem? ho) with rfl | hmem
      · cases hokind
      · exact ⟨owner, hmem, hsymbol.symm⟩
    · cases hlocal ▸ hopen.binding

variable {offset : Nat} {pieces : List Piece} {slots : List (Slot × Option Relocation)}

/-- Every relocation record of some pieces is made for one of their references. -/
theorem exists_reference (h : t.slots offset pieces = .ok slots) {r : Relocation}
    (hr : r ∈ slots.filterMap (·.2)) : ∃ (k : Nat) (name : String),
      pieces[k]? = some (.reference name) ∧
      t.relocation name (UInt32.ofNat (offset + 4 * k)) = .ok r := by
  induction pieces generalizing offset slots with
  | nil =>
    cases h
    cases hr
  | cons p rest ih =>
    obtain ⟨first, others, hfirst, hothers, rfl⟩ := slots_cons.mp h
    obtain ⟨slot, hslot, hsome⟩ := List.mem_filterMap.mp hr
    rcases List.mem_cons.mp hslot with rfl | hslot
    · cases p with
      | word w =>
        cases hfirst
        cases hsome
      | reference name =>
        obtain ⟨r', hrelocation, rfl⟩ := map_eq_ok.mp hfirst
        obtain rfl := Option.some.inj hsome
        exact ⟨0, name, rfl, hrelocation⟩
    · obtain ⟨k, name, hk, hrelocation⟩ :=
        ih hothers (List.mem_filterMap.mpr ⟨slot, hslot, hsome⟩)
      refine ⟨k + 1, name, hk, ?_⟩
      rwa [Nat.add_assoc, Nat.add_comm 4, ← Nat.mul_succ] at hrelocation

end SymbolTable

namespace Passes

variable {implicit : Option String} {program : Program} (p : Passes implicit program)
  (himplicit : ∀ name ∈ implicit, TableName name) (hlegal : ∀ n ∈ program, n.line.Legal)

include himplicit hlegal

theorem tableName_of_section {name : String} (h : name ∈ p.survey.locations.names) :
    TableName name := by
  have hwalk := (Survey.follow_of_lines .empty p.surveyed).1
  rcases Program.of_mem_openedNames ((Locations.mem_names_of_empty hwalk).mp h) with
    hname | ⟨n, hn, hopened⟩
  · exact himplicit name hname
  · exact (hlegal n hn).statement _ hopened

theorem legal_symbols : p.symbols.Legal := by
  refine (SymbolTable.legal_symbols (fun name h => p.tableName_of_section himplicit hlegal h)
    fun l hl => ?_).declareAll hlegal p.declared
  rcases Survey.exists_line_of_label .empty p.surveyed hl with hnone | hline
  · cases hnone
  · obtain ⟨before, n, after, hprogram, hname⟩ := hline
    have hn : n ∈ program := hprogram ▸ List.mem_append_right before List.mem_cons_self
    exact tableName_of_symbolName ((hlegal n hn).label l.name hname)

theorem tableNames_of_relocation {name : String} {r : Relocation}
    (hr : r ∈ (Assembled.sectionData p.rows name).relocations) :
    TableName r.symbol ∧ TableName r.origin := by
  have hnames := (p.legal_symbols himplicit hlegal).names
  obtain ⟨row, hrow, hr⟩ := List.mem_flatMap.mp hr
  have hrows := (Locations.emitLines_rows p.sound.locations.restarted p.emits).2.1
  obtain ⟨n, -, pieces, slots, hof⟩ := hrows row (List.mem_filter.mp hrow).1
  obtain ⟨_, _, -, hrelocation⟩ :=
    SymbolTable.exists_reference hof.resolved (hof.relocations ▸ hr)
  obtain ⟨⟨e, he, hsymbol⟩, e', he', horigin⟩ := p.describes.entries_of_relocation hrelocation
  exact ⟨hsymbol ▸ hnames e he, horigin ▸ hnames e' he'⟩

end Passes

end Toolchain32
