import Toolchain32.Link
import Toolchain32.Proofs.SectionShares
import Toolchain32.Proofs.SourceNames

/-!
# Global symbols of a link

A link goes on only if no two artifacts bind one name global. The merged table then has one global
symbol for each label that a source declares global, at the final address of the label.
-/

namespace Toolchain32

open Fallible

def Object.globalNames (o : Object) : List String :=
  (o.symbols.filter (·.binding == .global)).map (·.name)

variable {artifacts : List Artifact} {a c : Artifact} {i j : Nat} {name owner : String}
  {objects : List Object} {regions : List Region}

theorem addGlobal_eq_ok {seen result : List (String × String)} {global : String × String} :
    addGlobal seen global = .ok result ↔
      global.1 ∉ seen.map (·.1) ∧ seen ++ [global] = result := by
  rw [addGlobal, ← lookup_isSome_iff_mem]
  cases seen.lookup global.1 with
  | none => simp
  | some first => simp

theorem foldlM_addGlobal_eq_ok {seen more result : List (String × String)}
    (hseen : (seen.map (·.1)).Nodup) : more.foldlM addGlobal seen = .ok result ↔
      ((seen ++ more).map (·.1)).Nodup ∧ seen ++ more = result := by
  induction more generalizing seen with
  | nil => simp [pure, Except.pure, hseen]
  | cons global rest ih =>
    have hnext : ((seen ++ [global]).map (·.1)).Nodup ↔ global.1 ∉ seen.map (·.1) := by
      rw [List.map_append, List.map_singleton, List.nodup_append]
      simp only [hseen, List.nodup_singleton, true_and, List.mem_singleton, forall_eq]
      exact ⟨fun h hmem => h _ hmem rfl, fun h a ha heq => h (heq ▸ ha)⟩
    rw [List.foldlM_cons, bind_eq_ok, List.append_cons]
    simp only [addGlobal_eq_ok]
    constructor
    · rintro ⟨_, ⟨hfresh, rfl⟩, hrest⟩
      exact (ih (hnext.mpr hfresh)).mp hrest
    · intro h
      have hfirst : ((seen ++ [global]).map (·.1)).Nodup := by
        have hnodup := h.1
        rw [List.map_append] at hnodup
        exact (List.nodup_append.mp hnodup).1
      exact ⟨_, ⟨hnext.mp hfirst, rfl⟩, (ih hfirst).mpr h⟩

theorem nodup_globalNames (h : checkArtifacts artifacts = .ok ()) :
    (artifacts.flatMap (·.object.globalNames)).Nodup := by
  obtain ⟨result, hglobals, -⟩ := bind_eq_ok.mp h
  have hnodup := ((foldlM_addGlobal_eq_ok (by simp)).mp hglobals).1
  simpa [List.map_flatMap, Object.globalNames, Function.comp_def] using hnodup

/-- A global name tells its artifact. -/
theorem index_of_globalName (h : checkArtifacts artifacts = .ok ()) (ha : artifacts[i]? = some a)
    (hc : artifacts[j]? = some c) (hname : name ∈ a.object.globalNames)
    (hname' : name ∈ c.object.globalNames) : i = j := by
  have hdisjoint := (List.pairwise_flatMap.mp (nodup_globalNames h)).2
  rw [List.pairwise_iff_getElem] at hdisjoint
  obtain ⟨hi, rfl⟩ := List.getElem?_eq_some_iff.mp ha
  obtain ⟨hj, rfl⟩ := List.getElem?_eq_some_iff.mp hc
  rcases Nat.lt_trichotomy i j with hij | hij | hij
  · exact absurd rfl (hdisjoint i j hi hj hij name hname name hname')
  · exact hij
  · exact absurd rfl (hdisjoint j i hj hi hij name hname' name hname)

namespace Merged

theorem fields_rebaseSymbol (regions : List Region)
    (shares : List (String × List (Option Word))) (i : Nat) (o : Object) (e : ObjectSymbol) :
    (rebaseSymbol regions shares i o e).binding = e.binding ∧
      (rebaseSymbol regions shares i o e).name = e.name := by
  unfold rebaseSymbol
  dsimp only
  split <;> exact ⟨rfl, rfl⟩

/-- A global symbol of a merge is one that an object keeps, at its new address. -/
theorem exists_kept_of_global {s : ObjectSymbol} (hs : s ∈ (ofRegions objects regions).symbols)
    (hglobal : s.binding = .global) :
    ∃ i o kept, objects[i]? = some o ∧ kept ∈ keptSymbols o ∧ kept.binding = .global ∧
      kept.name = s.name ∧ s.value = (rebaseSymbol regions
        (regions.map fun r => (r.name, shareStarts r.name r.start objects)) i o kept).value := by
  obtain ⟨⟨s, k⟩, hnumbered, rfl⟩ := List.mem_map.mp hs
  have hmem := List.fst_mem_of_mem_zipIdx hnumbered
  rcases List.mem_cons.mp hmem with rfl | hmem
  · cases hglobal
  rcases List.mem_append.mp hmem with hmem | hmem
  · obtain ⟨r, -, rfl⟩ := List.mem_map.mp hmem
    cases hglobal
  · obtain ⟨⟨o, i⟩, ho, hmem⟩ := List.mem_flatMap.mp hmem
    obtain ⟨kept, hkept, rfl⟩ := List.mem_map.mp hmem
    obtain ⟨hbinding, hname⟩ := fields_rebaseSymbol regions
      (regions.map fun r => (r.name, shareStarts r.name r.start objects)) i o kept
    exact ⟨i, o, kept, List.mem_zipIdx_iff_getElem?.mp ho, hkept, hbinding ▸ hglobal,
      hname.symm, rfl⟩

/-- A global symbol that an object keeps is a global symbol of the merge. -/
theorem exists_global_of_kept (regions : List Region) {o : Object} {kept : ObjectSymbol}
    (ho : objects[i]? = some o) (hkept : kept ∈ keptSymbols o) (hglobal : kept.binding = .global) :
    ∃ s ∈ (ofRegions objects regions).symbols, s.binding = .global ∧ s.name = kept.name := by
  let shares := regions.map fun r => (r.name, shareStarts r.name r.start objects)
  let added := objects.zipIdx.flatMap fun p =>
    (keptSymbols p.1).map (rebaseSymbol regions shares p.2 p.1)
  obtain ⟨hbinding, hname⟩ := fields_rebaseSymbol regions shares i o kept
  have hadded : rebaseSymbol regions shares i o kept ∈ added :=
    List.mem_flatMap.mpr ⟨(o, i), List.mem_zipIdx_iff_getElem?.mpr ho, List.mem_map_of_mem hkept⟩
  have hmem : rebaseSymbol regions shares i o kept ∈
      ObjectSymbol.null :: (regions.map regionSymbol ++ added) :=
    List.mem_cons_of_mem _ (List.mem_append_right _ hadded)
  obtain ⟨k, hk⟩ := List.mem_iff_getElem?.mp hmem
  have hnumbered : (rebaseSymbol regions shares i o kept, k) ∈
      (ObjectSymbol.null :: (regions.map regionSymbol ++ added)).zipIdx :=
    List.mem_zipIdx_iff_getElem?.mpr hk
  exact ⟨_, List.mem_map.mpr ⟨_, hnumbered, rfl⟩, hbinding.trans hglobal, hname⟩

/-- A symbol moves with the share of its section, and the symbol of the region comes to own it. -/
theorem rebaseSymbol_eq {o : Object} {s : ObjectSymbol} {start : Word}
    (howner : (o.symbolById? s.owner).map (·.name) = some owner)
    (hstart : (ofRegions objects regions).start? i owner = some start) :
    ∃ k r, regions[k]? = some r ∧ r.name = owner ∧
      rebaseSymbol regions (regions.map fun r => (r.name, shareStarts r.name r.start objects)) i o
        s = { s with value := start + s.value, owner := k + 1 } := by
  have hstart' : shareStart? (regions.map fun r => (r.name, shareStarts r.name r.start objects)) i
      owner = some start := hstart
  obtain ⟨r, hr, hname, -⟩ := base_eq_some (base_of_start? hstart)
  have hsome : (regions.findIdx? (·.name == owner)).isSome = true := by
    rw [List.findIdx?_isSome, List.any_eq_true]
    exact ⟨r, hr, by simp [hname]⟩
  obtain ⟨k, hk⟩ := Option.isSome_iff_exists.mp hsome
  obtain ⟨hlt, hfound, -⟩ := List.findIdx?_eq_some_iff_getElem.mp hk
  refine ⟨k, regions[k], List.getElem?_eq_getElem hlt, by simpa using hfound, ?_⟩
  rw [rebaseSymbol, howner, Option.getD_some, hstart', regionId?, hk]
  rfl

end Merged

namespace Translation

variable {units : List Translation} {u w : Translation} {sectionName sectionName' : String}
  {offset offset' : Nat}

theorem mem_globalNames (h : u.HasLabel name sectionName offset)
    (hglobal : name ∈ u.program.globals) : name ∈ u.object.globalNames := by
  obtain ⟨p, hp⟩ := u.exists_passes
  obtain ⟨e, he, hlabel, hbinding⟩ := symbol_of_label hp h
  have hsymbols : e ∈ u.object.symbols := by
    rw [object_eq hp]
    exact List.mem_cons_of_mem _ he
  exact List.mem_map.mpr ⟨e, List.mem_filter.mpr ⟨hsymbols, by simp [hbinding.mpr hglobal]⟩,
    hlabel.name⟩

/-- A name has one global definition in a link. -/
theorem global_unique (h : checkArtifacts (units.map (·.artifact)) = .ok ())
    (hu : units[i]? = some u) (hlabel : u.HasLabel name sectionName offset)
    (hglobal : name ∈ u.program.globals) (hw : units[j]? = some w)
    (hlabel' : w.HasLabel name sectionName' offset') (hglobal' : name ∈ w.program.globals) :
    i = j ∧ sectionName = sectionName' ∧ offset = offset' := by
  have hartifact : (units.map (·.artifact))[i]? = some u.artifact := by simp [hu]
  have hartifact' : (units.map (·.artifact))[j]? = some w.artifact := by simp [hw]
  have hindex : i = j := index_of_globalName h hartifact hartifact'
    (mem_globalNames hlabel hglobal) (mem_globalNames hlabel' hglobal')
  subst hindex
  obtain rfl := Option.some.inj (hu.symm.trans hw)
  exact ⟨rfl, label_unique hlabel hlabel'⟩

/-- A defined symbol that a merge keeps is that of a label, owned by the symbol of its section. -/
theorem label_of_kept {kept : ObjectSymbol} (hkept : kept ∈ Merged.keptSymbols u.object)
    (hdefined : kept.binding ≠ .undefined) :
    ∃ o offset, u.object.symbolById? kept.owner = some o ∧ o.kind = .ofSection ∧
      u.HasLabel kept.name o.name offset ∧ kept.value = UInt32.ofNat offset ∧
      (kept.binding = .global ↔ kept.name ∈ u.program.globals) := by
  obtain ⟨p, hp⟩ := u.exists_passes
  obtain ⟨hmem, hkeep⟩ := List.mem_filter.mp hkept
  rw [object_eq hp] at hmem ⊢
  have he : kept ∈ p.symbols.entries := hmem
  simp only [Bool.and_eq_true, bne_iff_ne] at hkeep
  rcases p.describes.entries kept he with ⟨_, -, hsection⟩ | ⟨l, hl, hlabel⟩ | hopen
  · exact absurd hsection.kind hkeep.1
  · obtain ⟨o, ho, hkind, hname⟩ := hlabel.owner
    refine ⟨o, l.offset, SymbolTable.find?_id_of_byId? p.describes.sound ho, hkind, ?_,
      hlabel.value, SymbolTable.global_iff p.sound p.declared hl he hlabel.name⟩
    rw [hasLabel_iff hp, hlabel.name, hname]
    exact hl
  · cases hbinding : kept.binding with
    | localOnly | global => cases hbinding ▸ hopen.binding
    | external => exact absurd hbinding hkeep.2
    | undefined => exact absurd hbinding hdefined

/-- A global symbol of a link is at the final address of a label that is declared global. -/
theorem exists_label_of_global (hlaid : LaidOut (units.map (·.object)) regions)
    {s : ObjectSymbol} (hs : s ∈ (Merged.ofRegions (units.map (·.object)) regions).symbols)
    (hglobal : s.binding = .global) :
    ∃ (j : Nat) (w : Translation) (sectionName : String) (offset : Nat) (b : Word),
      units[j]? = some w ∧ w.HasLabel s.name sectionName offset ∧ s.name ∈ w.program.globals ∧
      base regions (units.map (·.object)) j sectionName = some b ∧
      s.value = b + UInt32.ofNat offset := by
  obtain ⟨j, o, kept, ho, hkept, hbinding, hname, hvalue⟩ :=
    Merged.exists_kept_of_global hs hglobal
  have ho' := ho
  rw [List.getElem?_map, Option.map_eq_some_iff] at ho'
  obtain ⟨w, hw, rfl⟩ := ho'
  obtain ⟨owner, offset, howner, -, hlabel, hkeptValue, hdeclared⟩ :=
    label_of_kept hkept (by simp [hbinding])
  have hsection := section_of_label hlabel
  obtain ⟨b, hb⟩ := hlaid.exists_base ho hsection
  obtain ⟨_, _, -, -, hrebased⟩ := Merged.rebaseSymbol_eq (congrArg (Option.map (·.name)) howner)
    (start?_of_base ho hsection hb)
  refine ⟨j, w, owner.name, offset, b, hw, hname ▸ hlabel, hname ▸ hdeclared.mp hbinding, hb, ?_⟩
  rw [hvalue, hrebased, hkeptValue]

end Translation

end Toolchain32
