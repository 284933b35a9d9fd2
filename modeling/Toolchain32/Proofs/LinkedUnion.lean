import Toolchain32.Proofs.LinkedWords
import Toolchain32.Proofs.ParsedObjects

/-!
# The linked image as a union of shares

An artifact occupies a place of the image for every offset of a section at which it has a word or a
relocation. `image_isUnion` says that these places are apart from each other, that each holds what
its own artifact asks for, and that the image has no other address.
-/

namespace Toolchain32

open Fallible

variable {artifacts : List Artifact} {placements : List Placement} {linked : Linked}
  {i j : Nat} {name other : String} {data data' : SectionData} {x y b c : Word}

structure Occupies (artifacts : List Artifact) (i : Nat) (name : String) (data : SectionData)
    (x : Word) : Prop where
  owned : ∃ a, artifacts[i]? = some a ∧ (name, data) ∈ a.object.data
  holds : data.Holds x

namespace Linked

def base? (l : Linked) (artifacts : List Artifact) (i : Nat) (name : String) : Option Word :=
  base l.regions (artifacts.map (·.object)) i name

def InShare (l : Linked) (artifacts : List Artifact) (i : Nat) (name : String) (byte : Nat) :
    Prop :=
  ∃ a b, artifacts[i]? = some a ∧ l.base? artifacts i name = some b ∧
    b.toNat ≤ byte ∧ byte < b.toNat + a.object.sizeOf name

/-- What a relocation of the `i`-th artifact is patched with: the addend counted from a global
symbol, or from the artifact's own share of a section. -/
def value? (l : Linked) (artifacts : List Artifact) (i : Nat) (r : Relocation) : Option Word :=
  match r.kind with
  | .absolute =>
    (l.symbols.find? fun s => s.binding == .global && s.name == r.symbol).map
      fun s => s.value + r.addend
  | .sectionRelative => (l.base? artifacts i r.symbol).map fun b => b + r.addend

/-- What the `i`-th artifact asks for at an offset of a section: the value of the last relocation
there, or else the word. -/
def content? (l : Linked) (artifacts : List Artifact) (i : Nat) (data : SectionData) (x : Word) :
    Option Word :=
  match data.relocationAt? x with
  | some r => (l.value? artifacts i r).map Word.pack
  | none => (data.words[x]?).map Slot.initial

structure IsUnion (l : Linked) (artifacts : List Artifact) : Prop where
  holds : ∀ {i name data x}, Occupies artifacts i name data x →
    ∃ b w, l.base? artifacts i name = some b ∧ l.content? artifacts i data x = some w ∧
      l.image.get? (b + x) = some w
  /-- The sums that lead to an address are exact, and the word there ends within the region. -/
  within : ∀ {i name data x b}, Occupies artifacts i name data x →
    l.base? artifacts i name = some b →
    ∃ r, l.regions.find? (·.name == name) = some r ∧
      b.toNat = r.start.toNat + sizeBefore (artifacts.map (·.object)) i name ∧
      (b + x).toNat = b.toNat + x.toNat ∧ b.toNat + x.toNat + 4 ≤ r.stop
  distinct : ∀ {i j name other data data' x y b c}, Occupies artifacts i name data x →
    Occupies artifacts j other data' y → l.base? artifacts i name = some b →
    l.base? artifacts j other = some c → b + x = c + y → i = j ∧ name = other ∧ x = y
  apart : ∀ {i j name other byte}, l.InShare artifacts i name byte →
    l.InShare artifacts j other byte → i = j ∧ name = other
  covered : ∀ {address w}, l.image.get? address = some w →
    ∃ i name data x b, Occupies artifacts i name data x ∧
      l.base? artifacts i name = some b ∧ address = b + x

end Linked

/-- The relocation of a contribution resolves to its value. -/
theorem Linking.value?_of_resolve (l : Linking artifacts linked) {c : Contribution}
    {r : Relocation} {addend value : Word}
    (h : c.resolve (.ofRegions (artifacts.map (·.object)) linked.regions) r =
      .ok (addend, value)) :
    linked.value? artifacts c.index r = some value := by
  cases hkind : r.kind with
  | absolute =>
    simp only [Contribution.resolve, hkind] at h
    split at h
    · rename_i target htarget
      obtain ⟨rfl, rfl⟩ := Prod.mk.inj (Except.ok.inj h)
      simp only [Linked.value?, hkind, l.merged, htarget, Option.map_some]
    · cases h
  | sectionRelative =>
    obtain ⟨start, hstart, rfl⟩ := Contribution.resolve_sectionRelative hkind h
    simp only [Linked.value?, hkind, Linked.base?, hstart, Option.map_some]

section Places

variable (hbounded : ∀ a ∈ artifacts, a.object.Bounded)
  (hlaid : LaidOut (artifacts.map (·.object)) linked.regions)

include hbounded hlaid

/-- The data that occupies a place is a contribution to the link. -/
theorem Occupies.exists_contribution (h : Occupies artifacts i name data x) :
    ∃ c ∈ contributions (.ofRegions (artifacts.map (·.object)) linked.regions) artifacts,
      c.index = i ∧ c.sectionName = name ∧ c.data = data ∧ artifacts[i]? = some c.artifact ∧
      linked.base? artifacts i name = some c.start := by
  obtain ⟨a, ha, hdata⟩ := h.owned
  have ho : (artifacts.map (·.object))[i]? = some a.object := by simp [ha]
  have hname := (hbounded a (List.mem_of_getElem? ha)).listed _ hdata
  obtain ⟨b, hb⟩ := hlaid.exists_base ho hname
  exact ⟨⟨a, i, name, data, b⟩, mem_contributions.mpr ⟨ha, hdata, start?_of_base ho hname hb⟩,
    rfl, rfl, rfl, ha, hb⟩

/-- A place holds what its artifact asks for, and lies within the artifact's share. -/
theorem Occupies.get? (l : Linking artifacts linked) (h : Occupies artifacts i name data x) :
    ∃ a b w, artifacts[i]? = some a ∧ x.toNat + 4 ≤ a.object.sizeOf name ∧
      linked.base? artifacts i name = some b ∧
      linked.content? artifacts i data x = some w ∧ linked.image.get? (b + x) = some w := by
  obtain ⟨c, hc, rfl, rfl, rfl, ha, hb⟩ := h.exists_contribution hbounded hlaid
  obtain ⟨ps, hps, hshare⟩ := l.get?_of_share hbounded hlaid rfl hc
  cases hlast : c.data.relocationAt? x with
  | some r =>
    obtain ⟨addend, value, hresolve, hwithin, hget⟩ :=
      Contribution.get?_writes_of_relocation hps hlast
    refine ⟨c.artifact, c.start, Word.pack value, ha, hwithin, hb, ?_,
      (hshare x hwithin).trans hget⟩
    rw [Linked.content?, hlast]
    exact congrArg (Option.map Word.pack) (l.value?_of_resolve hresolve)
  | none =>
    have hget := Contribution.get?_writes_of_word hps hlast
    cases h.holds with
    | @word _ slot hslot =>
      have hmem := (mem_contributions.mp hc).2.1
      have hwithin := (hbounded _ (List.mem_of_getElem? ha)).words _ hmem _ _ hslot
      refine ⟨c.artifact, c.start, slot.initial, ha, hwithin, hb, ?_,
        (hshare x hwithin).trans ?_⟩
      · rw [Linked.content?, hlast, hslot]
        rfl
      · rw [hget, hslot]
        rfl
    | relocation hr =>
      have hother := List.find?_eq_none.mp hlast _ (List.mem_reverse.mpr hr)
      simp at hother

end Places

/-- For artifacts that were read, the linked image is the disjoint union of their data. -/
theorem image_isUnion (hparsed : ∀ a ∈ artifacts, ∃ name text, Artifact.parse name text = .ok a)
    (hlink : link artifacts placements = .ok linked)
    (hsmall : ∀ s ∈ mergedSizes (artifacts.map (·.object)), s.2 < addressSpace) :
    linked.IsUnion artifacts := by
  obtain ⟨hlayout, ⟨l⟩⟩ := link_eq_ok hlink
  have hlaid := laidOut_of_layout hlayout hsmall
  have hbounded : ∀ a ∈ artifacts, a.object.Bounded := by
    intro a ha
    obtain ⟨name, text, htext⟩ := hparsed a ha
    unfold Artifact.parse at htext
    split at htext
    · rename_i object hobject
      cases htext
      exact Object.bounded_of_parse hobject
    · cases htext
  have hobject {i : Nat} {a : Artifact} (ha : artifacts[i]? = some a) :
      (artifacts.map (·.object))[i]? = some a.object := by simp [ha]
  constructor
  case holds =>
    intro i name data x h
    obtain ⟨_, b, w, -, -, hrest⟩ := h.get? hbounded hlaid l
    exact ⟨b, w, hrest⟩
  case within =>
    intro i name data x b h hb
    obtain ⟨a, _, _, ha, hfits, -⟩ := h.get? hbounded hlaid l
    obtain ⟨r, hr, hmem, rfl, hstart⟩ := hlaid.exists_region (hobject ha) hb (by omega)
    have hshare := hlaid.share_within hmem (hobject ha)
    have hwithin := hlaid.within r hmem
    refine ⟨r, hr, hstart, ?_, by omega⟩
    unfold addressSpace at hwithin
    rw [UInt32.toNat_add]
    omega
  case distinct =>
    intro i j name other data data' x y b c h h' hb hc heq
    obtain ⟨a, _, _, ha, hwithin, -⟩ := h.get? hbounded hlaid l
    obtain ⟨a', _, _, ha', hwithin', -⟩ := h'.get? hbounded hlaid l
    exact hlaid.share_of_address (hobject ha) (hobject ha') hb hc hwithin hwithin' heq
  case apart =>
    intro i j name other byte h h'
    obtain ⟨a, b, ha, hb, hlow, hhigh⟩ := h
    obtain ⟨a', c, ha', hc, hlow', hhigh'⟩ := h'
    obtain ⟨r, -, hmem, rfl, hstart⟩ := hlaid.exists_region (hobject ha) hb (by omega)
    obtain ⟨r', -, hmem', rfl, hstart'⟩ := hlaid.exists_region (hobject ha') hc (by omega)
    -- One byte counted from the begin of either share.
    obtain ⟨hindex, hregion⟩ := hlaid.share_of_byte hmem hmem' (hobject ha) (hobject ha')
      (x := byte - b.toNat) (y := byte - c.toNat) (by omega) (by omega) (by omega)
    exact ⟨hindex, congrArg Region.name hregion⟩
  case covered =>
    intro address w h
    obtain ⟨c, hc, ps, hps, hw⟩ := l.exists_contribution h rfl
    obtain ⟨ha, hdata, hstart⟩ := mem_contributions.mp hc
    obtain ⟨x, hx, hholds, -⟩ :=
      Contribution.writes_within (hbounded _ (List.mem_of_getElem? ha)) hdata hps _ hw
    exact ⟨c.index, c.sectionName, c.data, x, c.start, ⟨⟨c.artifact, ha, hdata⟩, hholds⟩,
      base_of_start? hstart, hx⟩

/-- Two rows for one section, an empty section, and two relocations of one word, all at odd
offsets. -/
def oddObjectText : String :=
  "SECTION_TABLE\n0 9 t\n0 0 z\n0 4 t\nSYMBOL_TABLE\n0 0 NOTYPE LOCAL UND\n" ++
    "RELOCATION_DATA: #t\n5 R_SEO_32 z 1\n5 R_SEO_32 t ffffffff\n\n" ++
    "SECTION_DATA: #t\n1: 00000001\n5: ????????"

theorem image_isUnion_oddObject :
    ∃ a linked, Artifact.parse "a" oddObjectText = .ok a ∧
      link [a, a] [⟨"t", 0x1003⟩] = .ok linked ∧ linked.IsUnion [a, a] := by
  have hrun : (Artifact.parse "a" oddObjectText).toOption.any (fun a : Artifact =>
      decide ((link [a, a] [⟨"t", 0x1003⟩]).toOption.isSome = true ∧
        ∀ s ∈ mergedSizes ([a, a].map Artifact.object), s.2 < addressSpace)) = true := by
    decide +kernel
  cases hparse : Artifact.parse "a" oddObjectText with
  | error e =>
    rw [hparse] at hrun
    cases hrun
  | ok a =>
    rw [hparse] at hrun
    obtain ⟨hlinked, hsmall⟩ := of_decide_eq_true hrun
    have hlink := eq_ok_get hlinked
    refine ⟨a, _, rfl, hlink, image_isUnion (fun b hb => ?_) hlink hsmall⟩
    have hab : b = a := by simpa using hb
    exact ⟨"a", oddObjectText, hab ▸ hparse⟩

end Toolchain32
