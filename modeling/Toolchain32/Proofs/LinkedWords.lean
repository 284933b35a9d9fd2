import Toolchain32.Link
import Toolchain32.Proofs.Fallible
import Toolchain32.Proofs.ImageWrites
import Toolchain32.Proofs.SectionShares

/-!
# The words of a linked image

A link writes the words and the patches of one contribution after the other. No two contributions
share an address, so that inside a share the image is what that one contribution writes:
`get?_of_share`. Within a contribution the patches come last, and of two patches of one word the
later one stays: `get?_writes_of_relocation` and `get?_writes_of_word`.
-/

namespace Toolchain32

open Fallible

/-- The word of a slot before it is patched: a placeholder is zero. -/
def Slot.initial : Slot → Word
  | .word w => w
  | .placeholder => 0

namespace SectionData

variable {data : SectionData} {x : Word} {r : Relocation}

inductive Holds (data : SectionData) : Word → Prop
  | word {x : Word} {slot : Slot} (h : data.words[x]? = some slot) : Holds data x
  | relocation {r : Relocation} (h : r ∈ data.relocations) : Holds data r.offset

def relocationAt? (data : SectionData) (x : Word) : Option Relocation :=
  data.relocations.reverse.find? (·.offset == x)

theorem relocationAt?_eq_some (h : data.relocationAt? x = some r) :
    ∃ before after, data.relocations = before ++ r :: after ∧ r.offset = x ∧
      ∀ q ∈ after, q.offset ≠ x := by
  obtain ⟨hoffset, later, earlier, hsplit, hlater⟩ := List.find?_eq_some_iff_append.mp h
  refine ⟨earlier.reverse, later.reverse, ?_, by simpa using hoffset, ?_⟩
  · simpa using congrArg List.reverse hsplit
  · intro q hq
    simpa using hlater q (List.mem_reverse.mp hq)

/-- A relocation whose offset no other one has is the last one of its offset. -/
theorem relocationAt?_of_mem (h : (data.relocations.map (·.offset)).Nodup)
    (hr : r ∈ data.relocations) : data.relocationAt? r.offset = some r := by
  obtain ⟨earlier, later, hsplit⟩ := List.append_of_mem hr
  have hlater : later.reverse.find? (·.offset == r.offset) = none := by
    rw [hsplit, List.map_append, List.map_cons, List.nodup_append, List.nodup_cons] at h
    refine List.find?_eq_none.mpr fun q hq heq => h.2.1.1 ?_
    exact (beq_iff_eq.mp heq) ▸ List.mem_map_of_mem (List.mem_reverse.mp hq)
  simp [relocationAt?, hsplit, hlater]

end SectionData

variable {artifacts : List Artifact} {placements : List Placement} {linked : Linked}
  {m : Merged} {c d : Contribution} {ps qs : List Patch}

structure Linking (artifacts : List Artifact) (linked : Linked) where
  patches : List (List Patch)
  checked : checkArtifacts artifacts = .ok ()
  merged : linked.symbols = (Merged.ofRegions (artifacts.map (·.object)) linked.regions).symbols
  patched : let m := Merged.ofRegions (artifacts.map (·.object)) linked.regions
    (contributions m artifacts).mapM (·.patches m) = .ok patches
  flattened : linked.patches = patches.flatten
  image : let m := Merged.ofRegions (artifacts.map (·.object)) linked.regions
    linked.image =
      .ofList (((contributions m artifacts).zip patches).flatMap fun (c, p) => c.writes p)

theorem link_eq_ok (h : link artifacts placements = .ok linked) :
    layout (mergedSizes (artifacts.map (·.object))) placements = .ok linked.regions ∧
      Nonempty (Linking artifacts linked) := by
  obtain ⟨⟨⟩, hchecked, h⟩ := bind_eq_ok.mp h
  obtain ⟨regions, hlayout, h⟩ := bind_eq_ok.mp h
  obtain ⟨patches, hpatched, h⟩ := bind_eq_ok.mp h
  cases h
  exact ⟨hlayout, ⟨⟨patches, hchecked, rfl, hpatched, rfl, rfl⟩⟩⟩

theorem mem_contributions : c ∈ contributions m artifacts ↔
    artifacts[c.index]? = some c.artifact ∧ (c.sectionName, c.data) ∈ c.artifact.object.data ∧
      m.start? c.index c.sectionName = some c.start := by
  simp only [contributions, List.mem_flatMap, List.mem_filterMap, Option.map_eq_some_iff]
  constructor
  · rintro ⟨⟨artifact, index⟩, hartifact, ⟨sectionName, data⟩, hdata, start, hstart, rfl⟩
    exact ⟨List.mem_zipIdx_iff_getElem?.mp hartifact, hdata, hstart⟩
  · rintro ⟨hartifact, hdata, hstart⟩
    exact ⟨(c.artifact, c.index), List.mem_zipIdx_iff_getElem?.mpr hartifact,
      (c.sectionName, c.data), hdata, c.start, hstart, rfl⟩

/-- An artifact contributes to each section once. -/
theorem pairwise_contributions (hbounded : ∀ a ∈ artifacts, a.object.Bounded) :
    (contributions m artifacts).Pairwise fun c d =>
      ¬(c.index = d.index ∧ c.sectionName = d.sectionName) := by
  rw [contributions, List.pairwise_flatMap]
  constructor
  · rintro ⟨artifact, index⟩ hmem
    have ha : artifact ∈ artifacts := List.fst_mem_of_mem_zipIdx hmem
    rw [List.pairwise_filterMap]
    refine (List.pairwise_map.mp (hbounded artifact ha).data).imp ?_
    rintro ⟨name, _⟩ ⟨name', _⟩ hne c hc d hd ⟨-, hname⟩
    obtain ⟨_, -, rfl⟩ := Option.map_eq_some_iff.mp hc
    obtain ⟨_, -, rfl⟩ := Option.map_eq_some_iff.mp hd
    exact hne hname
  · have hindices : (artifacts.zipIdx.map (·.2)).Nodup := by
      rw [List.zipIdx_map_snd]
      exact List.nodup_range'
    refine (List.pairwise_map.mp hindices).imp ?_
    rintro ⟨_, index⟩ ⟨_, index'⟩ hne c hc d hd ⟨hindex, -⟩
    obtain ⟨_, -, hc⟩ := List.mem_filterMap.mp hc
    obtain ⟨_, -, hd⟩ := List.mem_filterMap.mp hd
    obtain ⟨_, -, rfl⟩ := Option.map_eq_some_iff.mp hc
    obtain ⟨_, -, rfl⟩ := Option.map_eq_some_iff.mp hd
    exact hne hindex

namespace Contribution

theorem patch_eq_ok {r : Relocation} {p : Patch} (h : c.patch m r = .ok p) :
    ∃ addend value, c.resolve m r = .ok (addend, value) ∧
      p = ⟨c.sectionName, { r with offset := c.start + r.offset, addend }, value⟩ ∧
      r.offset.toNat + 4 ≤ c.artifact.object.sizeOf c.sectionName := by
  unfold patch at h
  dsimp only at h
  split at h
  · cases h
  · rename_i hwithin
    obtain ⟨⟨addend, value⟩, hresolve, h⟩ := bind_eq_ok.mp h
    cases h
    exact ⟨addend, value, hresolve, rfl, Nat.le_of_not_lt hwithin⟩

/-- Everything that a contribution writes lies within its share, at the offset of one of its words
or of one of its relocations. -/
theorem writes_within (hbounded : c.artifact.object.Bounded)
    (hdata : (c.sectionName, c.data) ∈ c.artifact.object.data) (h : c.patches m = .ok ps) :
    ∀ w ∈ c.writes ps, ∃ x : Word, w.1 = c.start + x ∧ c.data.Holds x ∧
      x.toNat + 4 ≤ c.artifact.object.sizeOf c.sectionName := by
  intro w hw
  rcases List.mem_append.mp hw with hw | hw
  · obtain ⟨⟨x, slot⟩, hslot, rfl⟩ := List.mem_map.mp hw
    have hget := Std.ExtTreeMap.mem_toList_iff_getElem?_eq_some.mp hslot
    exact ⟨x, rfl, .word hget, hbounded.words _ hdata x slot hget⟩
  · obtain ⟨p, hp, rfl⟩ := List.mem_map.mp hw
    obtain ⟨r, hr, hpatch⟩ := exists_of_mem_mapM h hp
    obtain ⟨_, value, -, rfl, hwithin⟩ := patch_eq_ok hpatch
    exact ⟨r.offset, rfl, .relocation hr, hwithin⟩

/-- A contribution writes nothing into the share of another one. -/
theorem writes_apart {regions : List Region} (hbounded : ∀ a ∈ artifacts, a.object.Bounded)
    (hlaid : LaidOut (artifacts.map (·.object)) regions)
    (hm : m = .ofRegions (artifacts.map (·.object)) regions)
    (hc : c ∈ contributions m artifacts) (hd : d ∈ contributions m artifacts)
    (hne : ¬(c.index = d.index ∧ c.sectionName = d.sectionName)) {x : Word}
    (hx : x.toNat + 4 ≤ c.artifact.object.sizeOf c.sectionName) (h : d.patches m = .ok ps) :
    ∀ w ∈ d.writes ps, w.1 ≠ c.start + x := by
  intro w hw heq
  obtain ⟨hca, -, hcstart⟩ := mem_contributions.mp hc
  obtain ⟨hda, hddata, hdstart⟩ := mem_contributions.mp hd
  have hwithin := writes_within (hbounded _ (List.mem_of_getElem? hda)) hddata h
  obtain ⟨y, hy, -, hywithin⟩ := hwithin w hw
  have hco : (artifacts.map (·.object))[c.index]? = some c.artifact.object := by simp [hca]
  have hdo : (artifacts.map (·.object))[d.index]? = some d.artifact.object := by simp [hda]
  obtain ⟨hindex, hname, -⟩ := hlaid.share_of_address hco hdo (base_of_start? (hm ▸ hcstart))
    (base_of_start? (hm ▸ hdstart)) hx hywithin (hy ▸ heq).symm
  exact hne ⟨hindex, hname⟩

theorem words_eq (c : Contribution) :
    c.words = c.data.words.toList.map fun e => (c.start + e.1, e.2.initial) := by
  refine List.map_congr_left fun e _ => ?_
  obtain ⟨x, _ | _⟩ := e <;> rfl

/-- The word that a contribution has at an offset before any patch. -/
theorem find?_words (c : Contribution) (x : Word) :
    (c.words.reverse.find? (·.1 == c.start + x)).map (·.2) =
      (c.data.words[x]?).map Slot.initial := by
  have hkey : (fun w : Word × Word => w.1 == c.start + x) ∘
      (fun e : Word × Slot => (c.start + e.1, e.2.initial)) = fun e => e.1 == x := by
    funext e
    rw [Function.comp_apply, Bool.eq_iff_iff, beq_iff_eq, beq_iff_eq, UInt32.add_right_inj]
  rw [words_eq, ← List.map_reverse, List.find?_map, hkey, Option.map_map,
    ← WordMap.find?_reverse_toList, Option.map_map]
  rfl

/-- A patch stands at the address of one of its relocations. -/
theorem exists_of_patch {rs : List Relocation} (h : rs.mapM (c.patch m) = .ok ps) {w : Word × Word}
    (hw : w ∈ ps.map Patch.write) : ∃ r ∈ rs, w.1 = c.start + r.offset := by
  obtain ⟨p, hp, rfl⟩ := List.mem_map.mp hw
  obtain ⟨r, hr, hpatch⟩ := exists_of_mem_mapM h hp
  obtain ⟨_, _, -, rfl, -⟩ := patch_eq_ok hpatch
  exact ⟨r, hr, rfl⟩

/-- The last relocation of a word decides what a contribution writes there. -/
theorem get?_writes_of_relocation (h : c.patches m = .ok ps) {x : Word} {r : Relocation}
    (hr : c.data.relocationAt? x = some r) :
    ∃ addend value, c.resolve m r = .ok (addend, value) ∧
      x.toNat + 4 ≤ c.artifact.object.sizeOf c.sectionName ∧
      (Image.ofList (c.writes ps)).get? (c.start + x) = some (Word.pack value) := by
  obtain ⟨before, after, hsplit, rfl, hlast⟩ := SectionData.relocationAt?_eq_some hr
  rw [patches, hsplit] at h
  obtain ⟨firsts, p, lasts, -, hp, hlasts, rfl⟩ := mapM_append_cons h
  obtain ⟨addend, value, hresolve, rfl, hwithin⟩ := patch_eq_ok hp
  refine ⟨addend, value, hresolve, hwithin, ?_⟩
  rw [writes, List.map_append, List.map_cons, Patch.write, ← List.append_assoc]
  refine Image.get?_ofList_of_last fun w hw heq => ?_
  obtain ⟨q, hq, hw⟩ := exists_of_patch hlasts hw
  exact hlast q hq ((UInt32.add_right_inj c.start).mp (hw.symm.trans heq))

/-- A word without a relocation is written as it stands. -/
theorem get?_writes_of_word (h : c.patches m = .ok ps) {x : Word}
    (hnone : c.data.relocationAt? x = none) :
    (Image.ofList (c.writes ps)).get? (c.start + x) =
      (c.data.words[x]?).map Slot.initial := by
  have hpatches : ∀ w ∈ ps.map Patch.write, w.1 ≠ c.start + x := by
    intro w hw heq
    obtain ⟨r, hr, hw⟩ := exists_of_patch h hw
    have hoffset : r.offset = x := (UInt32.add_right_inj c.start).mp (hw.symm.trans heq)
    have hother := List.find?_eq_none.mp hnone r (List.mem_reverse.mpr hr)
    simp [hoffset] at hother
  have hwrites : c.writes ps = [] ++ (c.words ++ ps.map Patch.write) := rfl
  rw [hwrites, Image.get?_ofList_between (by simp) hpatches, Image.get?_ofList, find?_words]

/-- A section-relative value is counted from the share of the object in that section. -/
theorem resolve_sectionRelative {objects : List Object} {regions : List Region} {r : Relocation}
    (hkind : r.kind = .sectionRelative) {addend value : Word}
    (h : c.resolve (.ofRegions objects regions) r = .ok (addend, value)) :
    ∃ start, base regions objects c.index r.symbol = some start ∧ value = start + r.addend := by
  simp only [resolve, hkind] at h
  split at h
  · rename_i region start hregion hstart
    obtain ⟨rfl, rfl⟩ := Prod.mk.inj (Except.ok.inj h)
    refine ⟨start, base_of_start? hstart, ?_⟩
    rw [UInt32.add_comm, UInt32.add_assoc, UInt32.sub_add_cancel, UInt32.add_comm]
  · cases h

/-- An absolute value is that of a global symbol. -/
theorem resolve_absolute {r : Relocation} (hkind : r.kind = .absolute) {addend value : Word}
    (h : c.resolve m r = .ok (addend, value)) :
    ∃ s ∈ m.symbols, s.binding = .global ∧ s.name = r.symbol ∧ value = s.value + r.addend := by
  simp only [resolve, hkind] at h
  split at h
  · rename_i target htarget
    obtain ⟨rfl, rfl⟩ := Prod.mk.inj (Except.ok.inj h)
    have hfound := List.find?_some htarget
    simp only [Bool.and_eq_true, beq_iff_eq] at hfound
    exact ⟨target, List.mem_of_find?_eq_some htarget, hfound.1, hfound.2, rfl⟩
  · cases h

end Contribution

namespace Linking

variable (l : Linking artifacts linked)

include l

/-- Inside the share of a contribution, the image is what that contribution writes. -/
theorem get?_of_share (hbounded : ∀ a ∈ artifacts, a.object.Bounded)
    (hlaid : LaidOut (artifacts.map (·.object)) linked.regions)
    (hm : m = Merged.ofRegions (artifacts.map (·.object)) linked.regions)
    (hc : c ∈ contributions m artifacts) :
    ∃ ps, c.patches m = .ok ps ∧ ∀ x : Word,
      x.toNat + 4 ≤ c.artifact.object.sizeOf c.sectionName →
        linked.image.get? (c.start + x) = (Image.ofList (c.writes ps)).get? (c.start + x) := by
  have hpatched := l.patched
  have himage := l.image
  dsimp only at hpatched himage
  rw [← hm] at hpatched himage
  have hdistinct := pairwise_contributions (m := m) hbounded
  obtain ⟨before, after, hparts⟩ := List.append_of_mem hc
  rw [hparts] at hpatched himage hdistinct
  obtain ⟨xs, ps, ys, hxs, hps, hys, hpatches⟩ := mapM_append_cons hpatched
  obtain ⟨hlength, hbefore⟩ := mapM_zip hxs
  obtain ⟨-, hafter⟩ := mapM_zip hys
  refine ⟨ps, hps, fun x hx => ?_⟩
  -- What the other contributions write lies in their shares.
  have hapart {ds : List Contribution} {qs : List (List Patch)}
      (hother : ∀ d ∈ ds, d ∈ contributions m artifacts ∧
        ¬(c.index = d.index ∧ c.sectionName = d.sectionName))
      (hqs : ∀ p ∈ ds.zip qs, p.1.patches m = .ok p.2) :
      ∀ w ∈ (ds.zip qs).flatMap fun p => p.1.writes p.2, w.1 ≠ c.start + x := by
    intro w hw
    obtain ⟨⟨d, q⟩, hd, hw⟩ := List.mem_flatMap.mp hw
    obtain ⟨hmem, hne⟩ := hother d (List.of_mem_zip hd).1
    exact Contribution.writes_apart hbounded hlaid hm hc hmem hne hx (hqs _ hd) w hw
  obtain ⟨-, hcafter, hcross⟩ := List.pairwise_append.mp hdistinct
  rw [himage, hpatches, List.zip_append hlength, List.zip_cons_cons, List.flatMap_append,
    List.flatMap_cons]
  refine Image.get?_ofList_between (hapart (fun d hd => ⟨?_, ?_⟩) hbefore)
    (hapart (fun d hd => ⟨?_, (List.pairwise_cons.mp hcafter).1 d hd⟩) hafter)
  · exact hparts ▸ List.mem_append_left _ hd
  · exact fun h => hcross d hd c List.mem_cons_self ⟨h.1.symm, h.2.symm⟩
  · exact hparts ▸ List.mem_append_right _ (List.mem_cons_of_mem _ hd)

/-- Every word of the image is written by some contribution. -/
theorem exists_contribution {a w : Word} (h : linked.image.get? a = some w)
    (hm : m = Merged.ofRegions (artifacts.map (·.object)) linked.regions) :
    ∃ c ∈ contributions m artifacts, ∃ ps, c.patches m = .ok ps ∧ (a, w) ∈ c.writes ps := by
  have hpatched := l.patched
  rw [l.image] at h
  dsimp only at h hpatched
  rw [← hm] at h hpatched
  obtain ⟨⟨c, ps⟩, hc, hw⟩ := List.mem_flatMap.mp (Image.mem_of_get?_ofList h)
  exact ⟨c, (List.of_mem_zip hc).1, ps, (mapM_zip hpatched).2 _ hc, hw⟩

/-- Every patch is made for a relocation of some contribution. -/
theorem exists_relocation {p : Patch} (hp : p ∈ linked.patches)
    (hm : m = Merged.ofRegions (artifacts.map (·.object)) linked.regions) :
    ∃ c ∈ contributions m artifacts, ∃ r ∈ c.data.relocations, c.patch m r = .ok p := by
  rw [l.flattened] at hp
  obtain ⟨ps, hps, hp⟩ := List.mem_flatten.mp hp
  have hpatched := l.patched
  dsimp only at hpatched
  rw [← hm] at hpatched
  obtain ⟨c, hc, hcps⟩ := exists_of_mem_mapM hpatched hps
  exact ⟨c, hc, exists_of_mem_mapM hcps hp⟩

/-- The value that a relocation resolves to is in the linked image. -/
theorem get?_of_relocation (hsound : ∀ a ∈ artifacts, a.object.Sound)
    (hlaid : LaidOut (artifacts.map (·.object)) linked.regions) {i : Nat} {a : Artifact}
    (ha : artifacts[i]? = some a) {name : String} {data : SectionData}
    (hdata : (name, data) ∈ a.object.data) {r : Relocation} (hr : r ∈ data.relocations)
    {b : Word} (hb : base linked.regions (artifacts.map (·.object)) i name = some b)
    (hname : name ∈ a.object.sectionNames) :
    ∃ addend value,
      Contribution.resolve (Merged.ofRegions (artifacts.map (·.object)) linked.regions)
        ⟨a, i, name, data, b⟩ r = .ok (addend, value) ∧
      linked.image.get? (b + r.offset) = some (Word.pack value) := by
  have ho : (artifacts.map (·.object))[i]? = some a.object := by simp [ha]
  have hc : (⟨a, i, name, data, b⟩ : Contribution) ∈
      contributions (.ofRegions (artifacts.map (·.object)) linked.regions) artifacts :=
    mem_contributions.mpr ⟨ha, hdata, start?_of_base ho hname hb⟩
  have hbounded : ∀ a ∈ artifacts, a.object.Bounded := fun a ha => (hsound a ha).toBounded
  obtain ⟨ps, hps, hshare⟩ := l.get?_of_share hbounded hlaid rfl hc
  have hlast : data.relocationAt? r.offset = some r :=
    SectionData.relocationAt?_of_mem
      ((hsound a (List.mem_of_getElem? ha)).relocations _ hdata) hr
  obtain ⟨addend, value, hresolve, hwithin, hget⟩ :=
    Contribution.get?_writes_of_relocation hps hlast
  exact ⟨addend, value, hresolve, (hshare _ hwithin).trans hget⟩

end Linking

end Toolchain32
