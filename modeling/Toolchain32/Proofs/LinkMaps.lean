import Toolchain32.Link.Map
import Toolchain32.Proofs.MergedSymbols

/-!
# Link maps

The map of a link has its regions and its global symbols, each at the address that the symbol table
has for it, and every absolute patch holds the address that the map says (`table_and_map_of_link`).
-/

namespace Toolchain32

open Fallible

structure LinkMap.IsMapOf (m : LinkMap) (units : List Translation) (linked : Linked) : Prop where
  sections : m.sections = linked.regions.map fun r => (r.name, ⟨r.start, r.size⟩)
  sectionsOnce : (m.sections.map (·.1)).Nodup
  /-- The symbols are the global ones that the link carries over, in their order. -/
  symbols : List.Forall₂
    (fun c e => e.1 = c.symbol.name ∧ Lands units linked.regions c e.2.sectionName e.2.address)
    ((carried units).filter (·.symbol.binding == .global)) m.symbols
  symbolsOnce : (m.symbols.map (·.1)).Nodup
  patches : ∀ p ∈ linked.patches, p.relocation.kind = .absolute →
    ∃ s, m.symbols.lookup p.relocation.symbol = some s ∧ s.address = p.value

variable {units : List Translation} {placements : List Placement} {linked : Linked}

/-- The owner of a symbol is that of the region that comes at its place. -/
theorem name_of_owner {symbols moved : List ObjectSymbol} {regions : List Region}
    (hsymbols : symbols = .null :: (regionSymbols regions ++ moved)) {k : Nat} {r : Region}
    (hr : regions[k]? = some r) : (symbols[k + 1]?).map (·.name) = some r.name := by
  have hregion : (regionSymbols regions)[k]? =
      some ⟨k + 1, r.name, r.start, .ofSection, k + 1, .localOnly⟩ := by
    simp [regionSymbols, hr]
  rw [hsymbols, List.getElem?_cons_succ, List.getElem?_append_left
    (List.getElem?_eq_some_iff.mp hregion).1, hregion]
  rfl

/-- The global symbols in the map are those of the table. -/
theorem symbols_ofLinked (h : linked.HasTable units) :
    List.Forall₂
      (fun c e => e.1 = c.symbol.name ∧ Lands units linked.regions c e.2.sectionName e.2.address)
      ((carried units).filter (·.symbol.binding == .global)) (LinkMap.ofLinked linked).symbols := by
  obtain ⟨moved, hsymbols, hmoves⟩ := h.symbols
  refine List.forall₂_map_right_iff.mpr ((forall₂_globals hsymbols hmoves).imp fun c s hs => ?_)
  obtain ⟨k, r, hr, howner, hlands⟩ := hs.place
  refine ⟨hs.name, ?_⟩
  dsimp only
  rw [howner, name_of_owner hsymbols hr]
  exact hlands

theorem exists_mapped {s : ObjectSymbol} (hs : s ∈ linked.symbols) (hglobal : s.binding = .global) :
    ∃ m, (s.name, m) ∈ (LinkMap.ofLinked linked).symbols ∧ m.address = s.value := by
  have hmem : s ∈ linked.symbols.filter (·.binding == .global) :=
    List.mem_filter.mpr ⟨hs, by simp [hglobal]⟩
  exact ⟨_, List.mem_map_of_mem hmem, rfl⟩

/-- The record of an absolute relocation has no addend. -/
theorem Translation.Record.addend_of_absolute {u : Translation} {name : String} {r : Relocation}
    (h : u.Record name r) (hkind : r.kind = .absolute) : r.addend = 0 := by
  cases h with
  | ofSection _ hrelative | ofLabel _ _ _ hrelative => cases hrelative.symm.trans hkind
  | ofGlobal _ _ _ haddend => exact haddend

/-- An absolute patch has the value of a global symbol. -/
theorem exists_global_of_patch (l : Linking (units.map (·.artifact)) linked) {p : Patch}
    (hp : p ∈ linked.patches) (hkind : p.relocation.kind = .absolute) :
    ∃ s ∈ linked.symbols, s.binding = .global ∧ s.name = p.relocation.symbol ∧
      s.value = p.value := by
  obtain ⟨c, hc, r, hr, hpatch⟩ := l.exists_relocation hp rfl
  obtain ⟨addend, value, hresolve, rfl, -⟩ := Contribution.patch_eq_ok hpatch
  replace hkind : r.kind = .absolute := hkind
  obtain ⟨u, -, -, hdata⟩ := unit_of_contribution hc
  obtain ⟨_, hrecord⟩ := Translation.exists_record_of_data hdata hr
  have haddend := hrecord.addend_of_absolute hkind
  obtain ⟨s, hs, hglobal, hname, hvalue⟩ := Contribution.resolve_absolute hkind hresolve
  rw [haddend, UInt32.add_zero] at hvalue
  exact ⟨s, l.merged ▸ hs, hglobal, hname, hvalue.symm⟩

/-- Counted in words, the ids of a merged table are its places too. -/
theorem Linked.HasTable.ids_in_words (h : linked.HasTable units)
    (hcount : linked.symbols.length ≤ 0x100000000) (k : Nat) (s : ObjectSymbol)
    (hs : linked.symbols[k]? = some s) : s.id = (UInt32.ofNat k).toNat :=
  Toolchain32.ids_in_words h.ids hcount k s hs

/-- The symbol table and the map of every successful link of assembled objects. -/
theorem table_and_map_of_link (h : link (units.map (·.artifact)) placements = .ok linked) :
    linked.HasTable units ∧ (LinkMap.ofLinked linked).IsMapOf units linked := by
  have htable := hasTable_of_link h
  obtain ⟨hlayout, ⟨l⟩⟩ := link_eq_ok h
  have honce : ((LinkMap.ofLinked linked).symbols.map (·.1)).Nodup := by
    rw [LinkMap.ofLinked, List.map_map]
    exact htable.globals
  refine ⟨htable, rfl, ?_, symbols_ofLinked htable, honce, fun p hp hkind => ?_⟩
  · rw [LinkMap.ofLinked, List.map_map]
    exact nodup_names_of_layout (nodup_mergedSizes _) hlayout
  · obtain ⟨s, hs, hglobal, hname, hvalue⟩ := exists_global_of_patch l hp hkind
    obtain ⟨m, hm, haddress⟩ := exists_mapped hs hglobal
    exact ⟨m, hname ▸ lookup_eq_of_mem honce hm, haddress.trans hvalue⟩

/-- Two sources that each have a local label `l`, with a section of both and one of the first that
is empty. -/
theorem table_and_map_of_link_twoSources :
    ∃ u w linked,
      Translation.ofSource? "a" {} "l: .section d\n.global g\ng: .word f\n.extern f" = some u ∧
      Translation.ofSource? "b" {} ".section d\nl: .global f\nf: .word g, l\n.extern g" =
        some w ∧
      link ([u, w].map (·.artifact)) [⟨"d", 0x1000⟩] = .ok linked ∧
      linked.HasTable [u, w] ∧ (LinkMap.ofLinked linked).IsMapOf [u, w] linked := by
  let u := (Translation.ofSource? "a" {} "l: .section d\n.global g\ng: .word f\n.extern f").get
    (by decide +kernel)
  let w := (Translation.ofSource? "b" {} ".section d\nl: .global f\nf: .word g, l\n.extern g").get
    (by decide +kernel)
  have hlink : (link ([u, w].map (·.artifact)) [⟨"d", 0x1000⟩]).toOption.isSome = true := by
    decide +kernel
  have hlinked := eq_ok_get hlink
  exact ⟨u, w, _, (Option.some_get _).symm, (Option.some_get _).symm, hlinked,
    table_and_map_of_link hlinked⟩

end Toolchain32
