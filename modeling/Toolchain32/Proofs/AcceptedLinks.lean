import Toolchain32.Proofs.GlobalSymbols
import Toolchain32.Proofs.LegalTables
import Toolchain32.Proofs.LinkedWords

/-!
# Which links succeed

A link fails because its artifacts do not fit together or because their sections find no room, and
for no other reason: every share of an assembled object has a place in the layout, and every
relocation of it can be patched (`exists_link_iff`).
-/

namespace Toolchain32

open Fallible

variable {artifacts : List Artifact}

theorem checkSymbol_eq_ok {globals : List (String × String)} {artifact : String}
    {s : ObjectSymbol} : checkSymbol globals artifact s = .ok () ↔
      (s.binding = .external → s.name ∈ globals.map (·.1)) ∧ s.binding ≠ .undefined := by
  rw [checkSymbol, ← lookup_isSome_iff_mem]
  cases s.binding with
  | external => by_cases h : (globals.lookup s.name).isSome <;> simp [h]
  | undefined | localOnly | global => simp

/-- What the artifacts of a link are checked for. -/
theorem checkArtifacts_eq_ok : checkArtifacts artifacts = .ok () ↔
    (artifacts.flatMap (·.object.globalNames)).Nodup ∧
      ∀ a ∈ artifacts, ∀ s ∈ a.object.symbols.drop 1,
        (s.binding = .external → s.name ∈ artifacts.flatMap (·.object.globalNames)) ∧
          s.binding ≠ .undefined := by
  let named := artifacts.flatMap fun a =>
    (a.object.symbols.filter (·.binding == .global)).map fun s => (s.name, a.name)
  have hnames : named.map (·.1) = artifacts.flatMap (·.object.globalNames) := by
    simp [named, List.map_flatMap, Object.globalNames, Function.comp_def]
  have hglobals (result : List (String × String)) : globals artifacts = .ok result ↔
      (named.map (·.1)).Nodup ∧ named = result := foldlM_addGlobal_eq_ok (by simp)
  rw [checkArtifacts, bind_eq_ok, ← hnames]
  simp only [hglobals, forM_eq_ok, checkSymbol_eq_ok]
  constructor
  · rintro ⟨_, ⟨hnodup, rfl⟩, h⟩
    exact ⟨hnodup, h⟩
  · rintro ⟨hnodup, h⟩
    exact ⟨_, ⟨hnodup, rfl⟩, h⟩

variable {objects : List Object} {regions : List Region} {m : Merged} {c : Contribution}
  {r : Relocation}

namespace Contribution

theorem exists_resolve_sectionRelative (hnames : ∀ name, name ∈ regions.map (·.name) ↔
      name ∈ (mergedSizes objects).map (·.1)) {o : Object} (ho : objects[c.index]? = some o)
    (hsymbol : r.symbol ∈ o.sectionNames) (hkind : r.kind = .sectionRelative) :
    ∃ resolved, c.resolve (.ofRegions objects regions) r = .ok resolved := by
  obtain ⟨b, hb⟩ := exists_base_of_names hnames ho hsymbol
  have hstart := start?_of_base ho hsymbol hb
  obtain ⟨region, hregion, -⟩ := Option.map_eq_some_iff.mp hb
  have hregion' : (Merged.ofRegions objects regions).regions.find? (·.name == r.symbol) =
      some region := hregion
  simp only [resolve, hkind, hregion', hstart]
  exact ⟨_, rfl⟩

theorem exists_resolve_absolute {s : ObjectSymbol} (hs : s ∈ m.symbols)
    (hglobal : s.binding = .global) (hname : s.name = r.symbol) (hkind : r.kind = .absolute) :
    ∃ resolved, c.resolve m r = .ok resolved := by
  simp only [resolve, hkind]
  cases hfind : m.symbols.find? fun s => s.binding == .global && s.name == r.symbol with
  | some target => exact ⟨_, rfl⟩
  | none =>
    have hnone := List.find?_eq_none.mp hfind s hs
    simp [hglobal, hname] at hnone

theorem exists_patch (hwithin : r.offset.toNat + 4 ≤ c.artifact.object.sizeOf c.sectionName)
    (hresolve : ∃ resolved, c.resolve m r = .ok resolved) : ∃ p, c.patch m r = .ok p := by
  obtain ⟨⟨addend, value⟩, hresolve⟩ := hresolve
  have hsize : ¬ ((c.artifact.object.section? c.sectionName).map (·.size.toNat)).getD 0 <
      r.offset.toNat + 4 := Nat.not_lt.mpr hwithin
  refine ⟨⟨c.sectionName, { r with offset := c.start + r.offset, addend }, value⟩, ?_⟩
  simp only [patch, hsize, if_false, hresolve]
  rfl

end Contribution

variable {units : List Translation} {placements : List Placement}

namespace Translation

variable {u : Translation} {name : String}

theorem symbols_object {p : Passes u.options.implicitSection u.program}
    (hp : u.assembled = .ofRows p.survey p.symbols p.rows) :
    u.object.symbols = ObjectSymbol.null :: p.symbols.entries := by
  rw [object_eq hp]
  rfl

theorem nodup_globalNames (u : Translation) : u.object.globalNames.Nodup := by
  obtain ⟨p, hp⟩ := u.exists_passes
  rw [Object.globalNames, symbols_object hp, List.filter_cons_of_neg (by decide)]
  exact p.describes.sound.nodup.sublist (List.filter_sublist.map _)

/-- A global name of an object is that of a symbol which a merge keeps. -/
theorem exists_kept (h : name ∈ u.object.globalNames) :
    ∃ kept ∈ Merged.keptSymbols u.object, kept.binding = .global ∧ kept.name = name := by
  obtain ⟨p, hp⟩ := u.exists_passes
  obtain ⟨e, he, rfl⟩ := List.mem_map.mp h
  obtain ⟨hmem, hglobal⟩ := List.mem_filter.mp he
  have hglobal : e.binding = .global := by simpa using hglobal
  rw [symbols_object hp] at hmem
  rcases List.mem_cons.mp hmem with rfl | hmem
  · cases hglobal
  obtain ⟨_, _, -, hlabel, -⟩ := label_of_global hp hmem hglobal
  refine ⟨e, List.mem_filter.mpr ⟨?_, by simp [hlabel.kind, hglobal]⟩, hglobal, rfl⟩
  rw [symbols_object hp]
  exact hmem

/-- What a relocation record leads to: a section of its object, or a name that the object binds
global or external. -/
theorem target_of_relocation {p : Passes u.options.implicitSection u.program}
    (hp : u.assembled = .ofRows p.survey p.symbols p.rows) {o : Word}
    (h : p.symbols.relocation name o = .ok r) :
    r.kind = .sectionRelative ∧ r.symbol ∈ u.object.sectionNames ∨
      r.kind = .absolute ∧ (r.symbol ∈ u.object.globalNames ∨
        ∃ e ∈ u.object.symbols, e.binding = .external ∧ e.name = r.symbol) := by
  cases record_of_relocation hp h with
  | ofSection hopened hkind hsymbol _ => exact .inl ⟨hkind, hsymbol ▸ hopened⟩
  | ofLabel sectionName offset hlabel hkind hsymbol _ =>
    exact .inl ⟨hkind, hsymbol ▸ section_of_label hlabel⟩
  | ofGlobal hknown hkind hsymbol _ =>
    refine .inr ⟨hkind, ?_⟩
    rcases hknown with ⟨⟨_, _, hlabel⟩, hglobal⟩ | hexternal
    · exact .inl (hsymbol ▸ mem_globalNames hlabel hglobal)
    · obtain ⟨⟨e, he, hname⟩, -⟩ := p.describes.entries_of_relocation h
      have hbinding := (SymbolTable.external_iff p.sound p.declared he).mpr
        (by rwa [hname, hsymbol])
      refine .inr ⟨e, ?_, hbinding, hname⟩
      rw [symbols_object hp]
      exact List.mem_cons_of_mem _ he

/-- The relocations of an object are those that the symbol table of its source gave. -/
theorem exists_relocation_of_data {e : String × SectionData} (he : e ∈ u.object.data)
    (hr : r ∈ e.2.relocations) : ∃ p : Passes u.options.implicitSection u.program,
      u.assembled = .ofRows p.survey p.symbols p.rows ∧
        r.offset.toNat + 4 ≤ u.object.sizeOf e.1 ∧
        ∃ reference o, p.symbols.relocation reference o = .ok r := by
  obtain ⟨p, hp⟩ := u.exists_passes
  rw [object_eq hp] at he ⊢
  rw [(p.mem_data.mp he).2] at hr
  refine ⟨p, hp, ?_, ?_⟩
  · have hoffset := (p.offsets_of_relocations e.1).subset (List.mem_map_of_mem hr)
    obtain ⟨⟨o, slot⟩, hmem, rfl⟩ := List.mem_map.mp hoffset
    rw [p.sizeOf_object]
    exact p.offset_of_mem hmem
  · obtain ⟨row, hrow, hr⟩ := List.mem_flatMap.mp hr
    have hrows := (Locations.emitLines_rows p.sound.locations.restarted p.emits).2.1
    obtain ⟨_, -, pieces, slots, hof⟩ := hrows row (List.mem_filter.mp hrow).1
    obtain ⟨_, reference, -, hrelocation⟩ :=
      SymbolTable.exists_reference hof.resolved (hof.relocations ▸ hr)
    exact ⟨reference, _, hrelocation⟩

theorem exists_record_of_data {e : String × SectionData} (he : e ∈ u.object.data)
    (hr : r ∈ e.2.relocations) : ∃ reference, u.Record reference r := by
  obtain ⟨p, hp, -, reference, _, hrelocation⟩ := exists_relocation_of_data he hr
  exact ⟨reference, record_of_relocation hp hrelocation⟩

end Translation

structure Linkable (units : List Translation) : Prop where
  once : ∀ (i j : Nat) (u w : Translation) (name : String), units[i]? = some u →
    units[j]? = some w → name ∈ u.object.globalNames → name ∈ w.object.globalNames → i = j
  externals : ∀ u ∈ units, ∀ s ∈ u.object.symbols, s.binding = .external →
    ∃ w ∈ units, s.name ∈ w.object.globalNames
  defined : ∀ u ∈ units, ∀ s ∈ u.object.symbols, s.binding ≠ .undefined

theorem mem_symbols_of_binding {u : Translation} {s : ObjectSymbol} (h : s.binding ≠ .localOnly) :
    s ∈ u.object.symbols ↔ s ∈ u.object.symbols.drop 1 := by
  obtain ⟨p, hp⟩ := u.exists_passes
  have hnull : s ≠ ObjectSymbol.null := fun heq => h (heq ▸ rfl)
  rw [Translation.symbols_object hp, List.mem_cons]
  exact or_iff_right hnull

theorem checkArtifacts_eq_ok_iff_linkable :
    checkArtifacts (units.map (·.artifact)) = .ok () ↔ Linkable units := by
  constructor
  · intro h
    obtain ⟨-, hsymbols⟩ := checkArtifacts_eq_ok.mp h
    refine ⟨?_, ?_, ?_⟩
    · intro i j u w name hu hw hname hname'
      exact index_of_globalName (a := u.artifact) (c := w.artifact) h (by simp [hu])
        (by simp [hw]) hname hname'
    · intro u hu s hs hexternal
      have hdrop := (mem_symbols_of_binding (by simp [hexternal])).mp hs
      have hmem := (hsymbols _ (List.mem_map_of_mem hu) s hdrop).1 hexternal
      simpa [Translation.artifact] using hmem
    · intro u hu s hs hundefined
      have hdrop := (mem_symbols_of_binding (by simp [hundefined])).mp hs
      exact (hsymbols _ (List.mem_map_of_mem hu) s hdrop).2 hundefined
  · intro h
    refine checkArtifacts_eq_ok.mpr ⟨List.pairwise_flatMap.mpr ⟨?_, ?_⟩, ?_⟩
    · intro a ha
      obtain ⟨u, -, rfl⟩ := List.mem_map.mp ha
      exact u.nodup_globalNames
    · rw [List.pairwise_map, List.pairwise_iff_getElem]
      rintro i j hi hj hij name hname _ hname' rfl
      have hsame := h.once i j _ _ name (List.getElem?_eq_getElem hi)
        (List.getElem?_eq_getElem hj) hname hname'
      omega
    · intro a ha s hs
      obtain ⟨u, hu, rfl⟩ := List.mem_map.mp ha
      have hmem : s ∈ u.object.symbols := List.mem_of_mem_drop hs
      refine ⟨fun hexternal => ?_, h.defined u hu s hmem⟩
      obtain ⟨w, hw, hname⟩ := h.externals u hu s hmem hexternal
      exact List.mem_flatMap.mpr ⟨_, List.mem_map_of_mem hw, hname⟩

/-- Every section has a base, so that the link takes the data of all units, and every relocation
among them has a patch. -/
structure Patchable (units : List Translation) (regions : List Region) : Prop where
  based : ∀ (i : Nat) (u : Translation), units[i]? = some u → ∀ e ∈ u.object.data,
    ∃ start, (Merged.ofRegions (units.map (·.object)) regions).start? i e.1 = some start
  contributed : (contributions (.ofRegions (units.map (·.object)) regions)
      (units.map (·.artifact))).map (fun c => (c.index, c.sectionName, c.data)) =
    units.zipIdx.flatMap fun (u, i) => u.object.data.map fun e => (i, e.1, e.2)
  patched : ∀ c ∈ contributions (.ofRegions (units.map (·.object)) regions)
      (units.map (·.artifact)), ∀ r ∈ c.data.relocations,
    ∃ patch, c.patch (.ofRegions (units.map (·.object)) regions) r = .ok patch

namespace Contribution

/-- A name that some unit binds global has a symbol in the merge. -/
theorem exists_resolve_of_global {w : Translation} (hw : w ∈ units)
    (hname : r.symbol ∈ w.object.globalNames) (hkind : r.kind = .absolute) :
    ∃ resolved, c.resolve (.ofRegions (units.map (·.object)) regions) r = .ok resolved := by
  obtain ⟨j, hj⟩ := List.mem_iff_getElem?.mp hw
  have hwo : (units.map (·.object))[j]? = some w.object := by simp [hj]
  obtain ⟨kept, hkept, hbinding, hkeptName⟩ := Translation.exists_kept hname
  obtain ⟨s, hs, hsglobal, hsname⟩ := Merged.exists_global_of_kept regions hwo hkept hbinding
  exact exists_resolve_absolute hs hsglobal (hsname.trans hkeptName) hkind

end Contribution

/-- A contribution is what a unit has for one of its sections. -/
theorem unit_of_contribution {m : Merged} {c : Contribution}
    (hc : c ∈ contributions m (units.map (·.artifact))) :
    ∃ u, units[c.index]? = some u ∧ u.artifact = c.artifact ∧
      (c.sectionName, c.data) ∈ u.object.data := by
  obtain ⟨hartifact, hdata, -⟩ := mem_contributions.mp hc
  obtain ⟨u, hu, hua⟩ := Option.map_eq_some_iff.mp (List.getElem?_map ▸ hartifact)
  rw [← hua] at hdata
  exact ⟨u, hu, hua, hdata⟩

/-- Sections that all have a base all contribute their data. -/
theorem contributed_of_based {m : Merged}
    (h : ∀ (i : Nat) (u : Translation), units[i]? = some u → ∀ e ∈ u.object.data,
      ∃ start, m.start? i e.1 = some start) :
    (contributions m (units.map (·.artifact))).map (fun c => (c.index, c.sectionName, c.data)) =
      units.zipIdx.flatMap fun (u, i) => u.object.data.map fun e => (i, e.1, e.2) := by
  rw [contributions, List.map_flatMap, List.zipIdx_map, List.flatMap_map]
  apply List.flatMap_congr
  rintro ⟨u, i⟩ hu
  have hbased := h i u (List.mem_zipIdx_iff_getElem?.mp hu)
  dsimp only [Prod.map]
  rw [List.map_filterMap, ← List.filterMap_eq_map]
  apply List.filterMap_congr
  rintro ⟨sectionName, data⟩ he
  obtain ⟨start, hstart⟩ := hbased _ he
  simp only [id_eq, hstart, Option.map_some, Function.comp_apply]

section

variable (hchecked : checkArtifacts (units.map (·.artifact)) = .ok ())
  (hlayout : layout (mergedSizes (units.map (·.object))) placements = .ok regions)

include hchecked hlayout

theorem exists_patch_of_layout {m : Merged} {c : Contribution}
    (hc : c ∈ contributions m (units.map (·.artifact))) {r : Relocation}
    (hr : r ∈ c.data.relocations) :
    ∃ patch, c.patch (.ofRegions (units.map (·.object)) regions) r = .ok patch := by
  obtain ⟨u, hu, hua, hdata⟩ := unit_of_contribution hc
  obtain ⟨artifact, index, sectionName, data, start⟩ := c
  obtain rfl : u.artifact = artifact := hua
  have hnames := names_of_layout hlayout
  have ho : (units.map (·.object))[index]? = some u.object := by simp [hu]
  have hlinkable := checkArtifacts_eq_ok_iff_linkable.mp hchecked
  obtain ⟨p, hp, hwithin, reference, o, hrelocation⟩ :=
    Translation.exists_relocation_of_data hdata hr
  apply Contribution.exists_patch hwithin
  rcases Translation.target_of_relocation hp hrelocation with
    ⟨hkind, hsymbol⟩ | ⟨hkind, hsymbol | ⟨s, hs, hexternal, hname⟩⟩
  · exact Contribution.exists_resolve_sectionRelative hnames ho hsymbol hkind
  · exact Contribution.exists_resolve_of_global (List.mem_of_getElem? hu) hsymbol hkind
  · obtain ⟨w, hw, hdefined⟩ :=
      hlinkable.externals u (List.mem_of_getElem? hu) s hs hexternal
    exact Contribution.exists_resolve_of_global hw (hname ▸ hdefined) hkind

/-- With the checks and the layout behind it, nothing can go wrong any more. -/
theorem patchable_of_layout : Patchable units regions := by
  have hbased : ∀ (i : Nat) (u : Translation), units[i]? = some u → ∀ e ∈ u.object.data,
      ∃ start, (Merged.ofRegions (units.map (·.object)) regions).start? i e.1 = some start := by
    intro i u hu e he
    have ho : (units.map (·.object))[i]? = some u.object := by simp [hu]
    have hlisted := u.object_sound.listed e he
    obtain ⟨start, hbase⟩ := exists_base_of_names (names_of_layout hlayout) ho hlisted
    exact ⟨start, start?_of_base ho hlisted hbase⟩
  exact ⟨hbased, contributed_of_based hbased,
    fun _ hc _ hr => exists_patch_of_layout hchecked hlayout hc hr⟩

end

theorem Patchable.exists_patches (h : Patchable units regions) :
    let m := Merged.ofRegions (units.map (·.object)) regions
    ∃ patches, (contributions m (units.map (·.artifact))).mapM (·.patches m) = .ok patches :=
  exists_mapM fun c hc => exists_mapM (h.patched c hc)

/-- A link of assembled objects succeeds exactly if they fit together and their sections find room.
Once this has been checked, no relocation fails and no data is left out. -/
theorem exists_link_iff (units : List Translation) (placements : List Placement) :
    ((∃ linked, link (units.map (·.artifact)) placements = .ok linked) ↔
      Linkable units ∧
        ∃ regions, layout (mergedSizes (units.map (·.object))) placements = .ok regions) ∧
    ∀ regions, checkArtifacts (units.map (·.artifact)) = .ok () →
      layout (mergedSizes (units.map (·.object))) placements = .ok regions →
        Patchable units regions := by
  refine ⟨?_, fun regions => patchable_of_layout⟩
  have hobjects := Translation.objects_of_artifacts units
  constructor
  · rintro ⟨linked, hlink⟩
    obtain ⟨hlayout, ⟨l⟩⟩ := link_eq_ok hlink
    rw [hobjects] at hlayout
    exact ⟨checkArtifacts_eq_ok_iff_linkable.mp l.checked, _, hlayout⟩
  · rintro ⟨hlinkable, regions, hlayout⟩
    have hchecked := checkArtifacts_eq_ok_iff_linkable.mpr hlinkable
    obtain ⟨patches, hpatches⟩ := (patchable_of_layout hchecked hlayout).exists_patches
    rw [← hobjects] at hlayout hpatches
    exact ⟨_, bind_eq_ok.mpr ⟨(), hchecked,
      bind_eq_ok.mpr ⟨regions, hlayout, bind_eq_ok.mpr ⟨patches, hpatches, rfl⟩⟩⟩⟩

/-- A source with an external name, and one that has a label of that name. -/
theorem exists_link_iff_twoSources :
    ∃ u w regions, Translation.ofSource? "a" {} ".extern f\n.word f" = some u ∧
      Translation.ofSource? "b" {} ".global f\nf: .skip 8" = some w ∧ Linkable [u, w] ∧
      layout (mergedSizes ([u, w].map (·.object))) [⟨".text", 0x1000⟩] = .ok regions ∧
      Patchable [u, w] regions := by
  let u := (Translation.ofSource? "a" {} ".extern f\n.word f").get (by decide +kernel)
  let w := (Translation.ofSource? "b" {} ".global f\nf: .skip 8").get (by decide +kernel)
  have hlinks : ∃ linked, link ([u, w].map (·.artifact)) [⟨".text", 0x1000⟩] = .ok linked :=
    ⟨_, eq_ok_get (by decide +kernel)⟩
  obtain ⟨hiff, hpatchable⟩ := exists_link_iff [u, w] [⟨".text", 0x1000⟩]
  obtain ⟨hlinkable, regions, hlayout⟩ := hiff.mp hlinks
  have hchecked := checkArtifacts_eq_ok_iff_linkable.mpr hlinkable
  exact ⟨u, w, regions, (Option.some_get _).symm, (Option.some_get _).symm, hlinkable, hlayout,
    hpatchable regions hchecked hlayout⟩

end Toolchain32
