import Toolchain32.Proofs.GlobalSymbols
import Toolchain32.Proofs.LinkedWords

/-!
# What a reference is patched with

`Means` says which final address a name of a source stands for. Three computations lead to it: the
places of labels in a survey, the shares of the artifacts in merged sections, and the relocations,
which go through a section or a global symbol. `references_resolved` says that they agree: every
reference holds the address that its name means.
-/

namespace Toolchain32

open Fallible

variable {units : List Translation} {placements : List Placement} {linked : Linked}
  {regions : List Region} {i : Nat} {u : Translation} {name sectionName : String} {offset : Nat}
  {v v' : Word}

/-- The final address that a name of the `i`-th source stands for: that of its own label or section,
or that of the label which some source declares global if the name is external. -/
inductive Means (units : List Translation) (regions : List Region) (i : Nat) (name : String) :
    Word → Prop
  | ofLabel {u : Translation} {sectionName : String} {offset : Nat} {b : Word}
      (unit : units[i]? = some u) (label : u.HasLabel name sectionName offset)
      (share : base regions (units.map (·.object)) i sectionName = some b) :
      Means units regions i name (b + UInt32.ofNat offset)
  | ofSection {u : Translation} {b : Word}
      (unit : units[i]? = some u) (opened : name ∈ u.object.sectionNames)
      (share : base regions (units.map (·.object)) i name = some b) :
      Means units regions i name b
  | ofExternal {u w : Translation} {j : Nat} {sectionName : String} {offset : Nat} {b : Word}
      (unit : units[i]? = some u) (external : name ∈ u.program.externals)
      (definer : units[j]? = some w) (label : w.HasLabel name sectionName offset)
      (global : name ∈ w.program.globals)
      (share : base regions (units.map (·.object)) j sectionName = some b) :
      Means units regions i name (b + UInt32.ofNat offset)

/-- A name means one address at most. -/
theorem Means.unique (hchecked : checkArtifacts (units.map (·.artifact)) = .ok ())
    (h : Means units regions i name v) (h' : Means units regions i name v') : v = v' := by
  -- Two ways to mean something exclude each other in one source; across sources, no name is
  -- declared global twice.
  cases h with
  | ofLabel hu hlabel hb =>
    cases h' with
    | ofLabel hu' hlabel' hb' =>
      obtain rfl := Option.some.inj (hu.symm.trans hu')
      obtain ⟨rfl, rfl⟩ := Translation.label_unique hlabel hlabel'
      obtain rfl := Option.some.inj (hb.symm.trans hb')
      rfl
    | ofSection hu' hopened hb' =>
      obtain rfl := Option.some.inj (hu.symm.trans hu')
      exact absurd hopened (Translation.not_section_of_label hlabel)
    | ofExternal hu' hexternal hw' hlabel' hglobal' hb' =>
      obtain rfl := Option.some.inj (hu.symm.trans hu')
      exact absurd hexternal (Translation.not_external_of_label hlabel)
  | ofSection hu hopened hb =>
    cases h' with
    | ofLabel hu' hlabel' hb' =>
      obtain rfl := Option.some.inj (hu.symm.trans hu')
      exact absurd hopened (Translation.not_section_of_label hlabel')
    | ofSection hu' hopened' hb' => exact Option.some.inj (hb.symm.trans hb')
    | ofExternal hu' hexternal hw' hlabel' hglobal' hb' =>
      obtain rfl := Option.some.inj (hu.symm.trans hu')
      exact absurd hexternal (Translation.not_external_of_section hopened)
  | ofExternal hu hexternal hw hlabel hglobal hb =>
    cases h' with
    | ofLabel hu' hlabel' hb' =>
      obtain rfl := Option.some.inj (hu.symm.trans hu')
      exact absurd hexternal (Translation.not_external_of_label hlabel')
    | ofSection hu' hopened hb' =>
      obtain rfl := Option.some.inj (hu.symm.trans hu')
      exact absurd hexternal (Translation.not_external_of_section hopened)
    | ofExternal hu' hexternal' hw' hlabel' hglobal' hb' =>
      obtain ⟨rfl, rfl, rfl⟩ :=
        Translation.global_unique hchecked hw hlabel hglobal hw' hlabel' hglobal'
      obtain rfl := Option.some.inj (hb.symm.trans hb')
      rfl

/-- A relocation record resolves to what its name means. -/
theorem means_of_resolve (hchecked : checkArtifacts (units.map (·.artifact)) = .ok ())
    (hlaid : LaidOut (units.map (·.object)) regions) (hu : units[i]? = some u) {r : Relocation}
    (hrecord : u.Record name r) {c : Contribution} (hindex : c.index = i) {addend : Word}
    (h : c.resolve (.ofRegions (units.map (·.object)) regions) r = .ok (addend, v)) :
    Means units regions i name v := by
  subst hindex
  cases hrecord with
  | ofSection hopened hkind hsymbol haddend =>
    obtain ⟨start, hstart, rfl⟩ := Contribution.resolve_sectionRelative hkind h
    rw [hsymbol] at hstart
    rw [haddend, UInt32.add_zero]
    exact .ofSection hu hopened hstart
  | ofLabel sectionName offset hlabel hkind hsymbol haddend =>
    obtain ⟨start, hstart, rfl⟩ := Contribution.resolve_sectionRelative hkind h
    rw [hsymbol] at hstart
    rw [haddend]
    exact .ofLabel hu hlabel hstart
  | ofGlobal hknown hkind hsymbol haddend =>
    obtain ⟨s, hs, hglobal, hname, rfl⟩ := Contribution.resolve_absolute hkind h
    obtain ⟨j, w, sectionName, offset, b, hw, hlabel, hdeclared, hb, hvalue⟩ :=
      Translation.exists_label_of_global hlaid hs hglobal
    rw [hname, hsymbol] at hlabel hdeclared
    rw [haddend, UInt32.add_zero, hvalue]
    rcases hknown with ⟨⟨sectionName', offset', hlabel'⟩, hdeclared'⟩ | hexternal
    · obtain ⟨rfl, rfl, rfl⟩ :=
        Translation.global_unique hchecked hw hlabel hdeclared hu hlabel' hdeclared'
      exact .ofLabel hu hlabel' hb
    · exact .ofExternal hu hexternal hw hlabel hdeclared hb

/-- Every reference of every source has been patched with the address that its name means: the word
at its final place holds exactly that address. -/
theorem references_resolved (hlink : link (units.map (·.artifact)) placements = .ok linked)
    (hsmall : ∀ s ∈ mergedSizes (units.map (·.object)), s.2 < addressSpace)
    (hu : units[i]? = some u) (hrefers : u.Refers name sectionName offset) :
    ∃ b v, base linked.regions (units.map (·.object)) i sectionName = some b ∧
      Means units linked.regions i name v ∧
      (∀ v', Means units linked.regions i name v' → v' = v) ∧
      linked.image.get? (b + UInt32.ofNat offset) = some (Word.pack v) := by
  obtain ⟨hlayout, ⟨l⟩⟩ := link_eq_ok hlink
  have hobjects := Translation.objects_of_artifacts units
  rw [hobjects] at hlayout
  have hlaid := laidOut_of_layout hlayout hsmall
  obtain ⟨hopened, data, r, hdata, hr, hoffset, hrecord⟩ := u.exists_record hrefers
  have ho : (units.map (·.object))[i]? = some u.object := by simp [hu]
  have ha : (units.map (·.artifact))[i]? = some u.artifact := by simp [hu]
  have hsound : ∀ a ∈ units.map (·.artifact), a.object.Sound := by
    intro a ha
    obtain ⟨w, -, rfl⟩ := List.mem_map.mp ha
    exact w.object_sound
  obtain ⟨b, hb⟩ := hlaid.exists_base ho hopened
  obtain ⟨addend, v, hresolve, hget⟩ := l.get?_of_relocation hsound (hobjects ▸ hlaid) ha hdata hr
    (hobjects ▸ hb) hopened
  rw [hobjects] at hresolve
  have hmeans := means_of_resolve l.checked hlaid hu hrecord rfl hresolve
  exact ⟨b, v, hb, hmeans, fun v' h => h.unique l.checked hmeans, hoffset ▸ hget⟩

/-- Two sources that refer to each other and to a section of both. -/
theorem references_resolved_twoSources :
    ∃ u w linked,
      Translation.ofSource? "a" {} ".extern f\n.global g\ng: call f\n.section d\n.word g" = some u ∧
      Translation.ofSource? "b" {} ".section d\n.global f\nf: .word d" = some w ∧
      link ([u, w].map (·.artifact)) [⟨"d", 0x1000⟩] = .ok linked ∧
      ∃ b v, base linked.regions ([u, w].map (·.object)) 0 ".text" = some b ∧
        Means [u, w] linked.regions 0 "f" v ∧
        (∀ v', Means [u, w] linked.regions 0 "f" v' → v' = v) ∧
        linked.image.get? (b + 4) = some (Word.pack v) := by
  let u := (Translation.ofSource? "a" {}
    ".extern f\n.global g\ng: call f\n.section d\n.word g").get (by decide +kernel)
  let w := (Translation.ofSource? "b" {} ".section d\n.global f\nf: .word d").get
    (by decide +kernel)
  have hlink : (link ([u, w].map (·.artifact)) [⟨"d", 0x1000⟩]).toOption.isSome = true := by
    decide +kernel
  have hrefers : u.Refers "f" ".text" 4 := by
    refine ⟨⟨3, ⟨some "g", some (.operation (.call (.symbol "f")))⟩⟩, 0, _, 0,
      ⟨u.program.take 2, u.program.drop 3, ?_, ?_, ?_⟩, rfl, rfl, rfl⟩
    all_goals decide +kernel
  cases h : link ([u, w].map (·.artifact)) [⟨"d", 0x1000⟩] with
  | error e =>
    rw [h] at hlink
    cases hlink
  | ok linked =>
    exact ⟨u, w, linked, (Option.some_get _).symm, (Option.some_get _).symm, h,
      references_resolved h (by decide +kernel) rfl hrefers⟩

end Toolchain32
