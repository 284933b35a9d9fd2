import Mathlib.Data.List.Flatten
import Toolchain32.Proofs.MergedSections
import Toolchain32.Proofs.PassAgreement
import Toolchain32.Proofs.RelocationTargets

/-!
# Assembled objects

The object of a source is sound: its words and relocations lie within its sections, and no two
relocations of a section share an offset. Every reference of the source has a relocation record.
-/

namespace Toolchain32

open Fallible

namespace SymbolTable

variable {t : SymbolTable} {offset : Nat} {pieces : List Piece}
  {slots : List (Slot × Option Relocation)} {name : String} {o : Word} {r : Relocation}

/-- The relocations of some pieces stand at the placeholders among their words, in order. -/
theorem offsets_of_slots (ht : t.Sound) (h : t.slots offset pieces = .ok slots) :
    (slots.filterMap (·.2)).map (·.offset) =
      ((entriesFrom offset (slots.map (·.1))).filter (·.2 == .placeholder)).map (·.1) := by
  induction pieces generalizing offset slots with
  | nil =>
    cases h
    rfl
  | cons p rest ih =>
    obtain ⟨first, others, hfirst, hothers, rfl⟩ := slots_cons.mp h
    rw [List.map_cons, entriesFrom_cons]
    cases p with
    | word w =>
      cases hfirst
      simpa using ih hothers
    | reference name =>
      obtain ⟨r, hr, rfl⟩ := map_eq_ok.mp hfirst
      simpa [(relocation_eq_ok ht hr).1] using ih hothers

/-- Every reference has a relocation record. -/
theorem exists_relocation (h : t.slots offset pieces = .ok slots) {k : Nat}
    (hk : pieces[k]? = some (.reference name)) :
    ∃ r ∈ slots.filterMap (·.2), t.relocation name (UInt32.ofNat (offset + 4 * k)) = .ok r := by
  induction pieces generalizing offset slots k with
  | nil => cases hk
  | cons p rest ih =>
    obtain ⟨first, others, hfirst, hothers, rfl⟩ := slots_cons.mp h
    cases k with
    | zero =>
      obtain rfl : p = .reference name := by simpa using hk
      obtain ⟨r, hr, rfl⟩ := map_eq_ok.mp hfirst
      exact ⟨r, List.mem_cons_self, hr⟩
    | succ k =>
      obtain ⟨r, hmem, hr⟩ := ih hothers (by simpa using hk)
      refine ⟨r, ?_, ?_⟩
      · rw [List.filterMap_cons]
        split
        · exact hmem
        · exact List.mem_cons_of_mem _ hmem
      · rwa [Nat.add_assoc, Nat.add_comm 4, ← Nat.mul_succ] at hr

end SymbolTable

namespace Passes

variable {implicit : Option String} {program : Program} (p : Passes implicit program)

def object : Object := (Assembled.ofRows p.survey p.symbols p.rows).object

theorem sectionNames_object : p.object.sectionNames = p.survey.locations.names := by
  rw [Object.sectionNames, Locations.names, object, Assembled.ofRows, Survey.sections,
    List.map_map]
  conv_rhs => rw [← List.zipIdx_map_fst 0 p.survey.locations.counters, List.map_map]
  rfl

theorem sizeOf_object (name : String) :
    p.object.sizeOf name = p.survey.locations.counter name := by
  rw [Object.sizeOf]
  cases hsection : p.object.section? name with
  | some sec =>
    have hmem : sec ∈ p.survey.sections := List.mem_of_find?_eq_some hsection
    have hname : sec.name = name := by simpa using List.find?_some hsection
    rw [Option.map_some, Option.getD_some, (p.sectionName_of_mem hmem).2, hname]
  | none =>
    have hnone : p.survey.locations.counters.lookup name = none := by
      rw [← Option.not_isSome_iff_eq_none, lookup_isSome_iff_mem]
      intro hmem
      change name ∈ p.survey.locations.names at hmem
      rw [← sectionNames_object] at hmem
      obtain ⟨sec, hsec, hname⟩ := List.mem_map.mp hmem
      have hne := List.find?_eq_none.mp hsection sec hsec
      simp [hname] at hne
    simp [Locations.counter, hnone]

theorem mem_data {e : String × SectionData} : e ∈ p.object.data ↔
    e.1 ∈ p.survey.locations.names ∧ e.2 = Assembled.sectionData p.rows e.1 := by
  obtain ⟨name, data⟩ := e
  simp only [object, Assembled.ofRows, List.mem_map, Locations.names, Prod.mk.injEq]
  constructor
  · rintro ⟨c, hc, rfl, rfl⟩
    exact ⟨⟨c, hc, rfl⟩, rfl⟩
  · rintro ⟨⟨c, hc, rfl⟩, rfl⟩
    exact ⟨c, hc, rfl, rfl⟩

theorem offset_of_mem {name : String} {o : Word} {slot : Slot}
    (h : (o, slot) ∈ emittedInto p.rows name) :
    o.toNat + 4 ≤ p.survey.locations.counter name := by
  obtain ⟨count, hcount, hkeys⟩ := p.exists_count name
  have hsmall := p.sound.locations.small name
  have hmem : o ∈ wordOffsets 0 count := hkeys ▸ List.mem_map_of_mem (f := (·.1)) h
  obtain ⟨k, hk, rfl⟩ := mem_wordOffsets.mp hmem
  rw [UInt32.toNat_ofNat']
  omega

/-- The relocations of a section stand at its placeholders, in order. -/
theorem offsets_eq_placeholders (name : String) :
    (Assembled.sectionData p.rows name).relocations.map (·.offset) =
      ((emittedInto p.rows name).filter (·.2 == .placeholder)).map (·.1) := by
  have hof := (Locations.emitLines_rows p.sound.locations.restarted p.emits).2.1
  have hrow : ∀ row ∈ p.rows, row.relocations.map (·.offset) =
      (row.entries.filter (·.2 == .placeholder)).map (·.1) := by
    intro row hrow
    obtain ⟨_, -, pieces, slots, hrow⟩ := hof row hrow
    rw [hrow.relocations, SymbolTable.offsets_of_slots p.describes.sound hrow.resolved,
      ← hrow.words]
    rfl
  rw [Assembled.sectionData, emittedInto, List.map_flatMap, List.filter_flatMap, List.map_flatMap]
  exact List.flatMap_congr fun row hmem => hrow row (List.mem_filter.mp hmem).1

theorem offsets_of_relocations (name : String) :
    ((Assembled.sectionData p.rows name).relocations.map (·.offset)).Sublist
      ((emittedInto p.rows name).map (·.1)) :=
  p.offsets_eq_placeholders name ▸ List.filter_sublist.map _

theorem dataNames_object : p.object.data.map (·.1) = p.survey.locations.names := by
  simp [object, Assembled.ofRows, Locations.names, Function.comp_def]

/-- The object of a source is sound. -/
theorem object_sound : p.object.Sound where
  sections := p.sectionNames_object ▸ p.sound.locations.nodup
  data := p.dataNames_object ▸ p.sound.locations.nodup
  listed e he := by
    rw [p.sectionNames_object, ← p.dataNames_object]
    exact List.mem_map_of_mem he
  words e he o slot h := by
    rw [(p.mem_data.mp he).2, words_sectionData (p.nodup_emittedInto e.1)] at h
    exact p.sizeOf_object e.1 ▸ p.offset_of_mem h
  relocations e he := by
    rw [(p.mem_data.mp he).2]
    exact (p.nodup_emittedInto e.1).sublist (p.offsets_of_relocations e.1)

/-- The section of a row is one of the object, even if there are no words in the row. -/
theorem opened_of_row {row : Row} (hrow : row ∈ p.rows) :
    row.sectionName ∈ p.survey.locations.names := by
  have hrestarted := p.sound.locations.restarted
  have hemitted := Locations.opened_of_emitLines hrestarted p.emits row hrow
  rw [Locations.mem_names_follow (Locations.emitLines_rows hrestarted p.emits).1,
    Locations.names_restarted] at hemitted
  rcases hemitted with hsurveyed | hopened
  · exact hsurveyed
  · exact (Locations.mem_names_follow (Survey.follow_of_lines .empty p.surveyed).1).mpr
      (.inr hopened)

/-- The relocation record of a reference is in the data of the section that the reference is
emitted into. -/
theorem exists_relocation {before after : Program} {n : NumberedLine} {s : Statement}
    {pieces : List Piece} {k : Nat} {name : String} (hprogram : program = before ++ n :: after)
    (hnumbers : program.map (·.number) = List.range' 1 program.length)
    (hstatement : n.line.statement = some s) (hpieces : s.pieces? = .ok (some pieces))
    (hk : pieces[k]? = some (.reference name)) {sectionName : String}
    (hsection : before.lastOpened.or implicit = some sectionName) :
    sectionName ∈ p.object.sectionNames ∧ ∃ r,
      p.symbols.relocation name (UInt32.ofNat
        (bytesInto (p.rows.filter (·.line < n.number)) sectionName + 4 * k)) = .ok r ∧
      r ∈ (Assembled.sectionData p.rows sectionName).relocations := by
  obtain ⟨row, hrow, slots, hof, hopened, hoffset⟩ :=
    p.exists_row hprogram hnumbers hstatement hpieces
  obtain rfl := Option.some.inj (hsection.symm.trans hopened)
  obtain ⟨r, hr, hrelocation⟩ := SymbolTable.exists_relocation hof.resolved hk
  refine ⟨p.sectionNames_object ▸ p.opened_of_row hrow, r, hoffset ▸ hrelocation, ?_⟩
  refine List.mem_flatMap.mpr ⟨row, List.mem_filter.mpr ⟨hrow, by simp⟩, ?_⟩
  exact hof.relocations ▸ hr

end Passes

end Toolchain32
