import Toolchain32.Machine
import Toolchain32.Proofs.AlignedRegions
import Toolchain32.Proofs.LinkedWords
import Toolchain32.Proofs.PrintedImages
import Toolchain32.Proofs.SourceNames

/-!
# Fetching what was linked

The machine drops the low two bits of every address, and the linker does not. They agree on the
words at multiples of four, which are all words of a link of assembled sources unless a placement
says otherwise: `fetch_linked`.
-/

namespace Toolchain32

open Fallible

namespace Passes

variable {implicit : Option String} {program : Program} (p : Passes implicit program)

theorem aligned_sections : ∀ s ∈ p.object.sections, s.size.IsAligned := by
  intro s hs
  obtain ⟨count, hcount, -⟩ := p.exists_count s.name
  have hsize : s.size.toNat = p.survey.locations.counter s.name := (p.sectionName_of_mem hs).2
  rw [Word.IsAligned, hsize, hcount]
  exact Nat.dvd_mul_right 4 count

/-- The words and relocations of an assembled section stand at words. -/
theorem aligned_of_holds {e : String × SectionData} (he : e ∈ p.object.data) {x : Word}
    (h : e.2.Holds x) : x.IsAligned := by
  obtain ⟨count, hcount, hkeys⟩ := p.exists_count e.1
  have hmem : x ∈ (emittedInto p.rows e.1).map (·.1) := by
    rw [(p.mem_data.mp he).2] at h
    cases h with
    | word hslot =>
      rw [words_sectionData (p.nodup_emittedInto e.1)] at hslot
      exact List.mem_map_of_mem (f := (·.1)) hslot
    | relocation hr =>
      exact (p.offsets_of_relocations e.1).subset (List.mem_map_of_mem hr)
  rw [hkeys] at hmem
  obtain ⟨k, -, rfl⟩ := mem_wordOffsets.mp hmem
  exact Word.isAligned_ofNat (Nat.dvd_add (Nat.dvd_zero 4) (Nat.dvd_mul_right 4 k))

end Passes

namespace Translation

theorem aligned_sections (u : Translation) : ∀ s ∈ u.object.sections, s.size.IsAligned := by
  obtain ⟨p, hp⟩ := u.exists_passes
  rw [object_eq hp]
  exact p.aligned_sections

theorem aligned_of_holds (u : Translation) {e : String × SectionData} (he : e ∈ u.object.data)
    {x : Word} (h : e.2.Holds x) : x.IsAligned := by
  obtain ⟨p, hp⟩ := u.exists_passes
  rw [object_eq hp] at he
  exact p.aligned_of_holds he h

end Translation

/-- The machine fetches the words at multiples of four as its memory has them. -/
theorem Machine.fetch_start {image : Image} {address word : Word} (haddress : address.IsAligned)
    (h : image.get? address = some word) : (Machine.start image).fetch address = word := by
  rw [fetch, Word.aligned_eq_self haddress]
  change (image.get? address).getD 0 = word
  rw [h]
  rfl

variable {units : List Translation} {placements : List Placement} {linked : Linked}

/-- Every address of a link is that of a word, if the placements are. -/
theorem aligned_of_link (hlink : link (units.map (·.artifact)) placements = .ok linked)
    (hplaced : ∀ p ∈ placements, p.address.IsAligned) {address word : Word}
    (h : linked.image.get? address = some word) : address.IsAligned := by
  obtain ⟨hlayout, ⟨l⟩⟩ := link_eq_ok hlink
  have hunit {o : Object} (ho : o ∈ (units.map (·.artifact)).map (·.object)) :
      ∃ u : Translation, o = u.object := by
    obtain ⟨a, ha, rfl⟩ := List.mem_map.mp ho
    obtain ⟨u, -, rfl⟩ := List.mem_map.mp ha
    exact ⟨u, rfl⟩
  have hsections : ∀ o ∈ (units.map (·.artifact)).map (·.object), ∀ s ∈ o.sections,
      s.size.IsAligned := by
    intro o ho
    obtain ⟨u, rfl⟩ := hunit ho
    exact u.aligned_sections
  have hregions := isAligned_of_layout (aligned_mergedSizes hsections) hplaced hlayout
  obtain ⟨c, hc, ps, hps, hw⟩ := l.exists_contribution h rfl
  obtain ⟨ha, hdata, hstart⟩ := mem_contributions.mp hc
  obtain ⟨r, hr, -, hbase⟩ := base_eq_some (base_of_start? hstart)
  have hmem := List.mem_of_getElem? ha
  obtain ⟨u, hu, hartifact⟩ := List.mem_map.mp hmem
  have hbounded : c.artifact.object.Bounded := hartifact ▸ u.object_sound.toBounded
  obtain ⟨x, hx, hholds, -⟩ := Contribution.writes_within hbounded hdata hps _ hw
  -- The address is the begin of a region, the sizes before the share, and the offset.
  have hshare : c.start.IsAligned := by
    rw [hbase]
    exact (hregions r hr).add (Word.isAligned_ofNat (aligned_sizeBefore hsections _ _))
  have hobject : c.artifact.object = u.object := congrArg Artifact.object hartifact.symm
  change address = c.start + x at hx
  rw [hx]
  exact hshare.add (u.aligned_of_holds (hobject ▸ hdata) hholds)

/-- A machine that loads the printed image fetches every linked word at a multiple of four, and no
two of these share a word of memory. Placements at multiples of four leave no other words. -/
theorem fetch_linked (hlink : link (units.map (·.artifact)) placements = .ok linked) :
    ∃ image, Image.parse linked.image.print = .ok image ∧
      (∀ address word, linked.image.get? address = some word → address.IsAligned →
        (Machine.start image).fetch address = word) ∧
      (∀ a b v w, linked.image.get? a = some v → linked.image.get? b = some w → a.IsAligned →
        b.IsAligned → Word.aligned a = Word.aligned b → a = b) ∧
      ((∀ p ∈ placements, p.address.IsAligned) →
        ∀ address word, linked.image.get? address = some word → address.IsAligned) := by
  refine ⟨linked.image, Image.parse_print linked.image, ?_, ?_, ?_⟩
  · intro address word hword haddress
    exact Machine.fetch_start haddress hword
  · intro a b v w _ _ ha hb hsame
    rwa [Word.aligned_eq_self ha, Word.aligned_eq_self hb] at hsame
  · intro hplaced address word hword
    exact aligned_of_link hlink hplaced hword

def linksTo (source : String) (address : Word) (check : Linked → Bool) : Bool :=
  (Translation.ofSource? "a" {} source).any fun u =>
    (link ([u].map (·.artifact)) [⟨".text", address⟩]).toOption.any check

theorem exists_of_linksTo (source : String) (address : Word) (check : Linked → Bool)
    (h : linksTo source address check = true) :
    ∃ u linked, Translation.ofSource? "a" {} source = some u ∧
      link ([u].map (·.artifact)) [⟨".text", address⟩] = .ok linked ∧ check linked = true := by
  obtain ⟨u, hu, h⟩ := (Option.any_eq_true _ _).mp h
  obtain ⟨linked, hlinked, h⟩ := (Option.any_eq_true _ _).mp h
  refine ⟨u, linked, hu, ?_, h⟩
  cases hlink : link ([u].map (·.artifact)) [⟨".text", address⟩] with
  | error e =>
    rw [hlink] at hlinked
    cases hlinked
  | ok l =>
    rw [hlink] at hlinked
    exact congrArg Except.ok (Option.some.inj hlinked)

theorem fetch_linked_loadOne :
    ∃ u linked, Translation.ofSource? "a" {} "ld $1, %r1" = some u ∧
      link ([u].map (·.artifact)) [⟨".text", 0x40000000⟩] = .ok linked ∧
      ∃ image, Image.parse linked.image.print = .ok image ∧
        (Machine.start image).fetch 0x40000000 = 0x91100001 := by
  obtain ⟨u, linked, hu, hlink, hword⟩ := exists_of_linksTo "ld $1, %r1" 0x40000000
    (fun l => l.image.get? 0x40000000 == some 0x91100001) (by decide +kernel)
  obtain ⟨image, hparse, hfetch, -, -⟩ := fetch_linked hlink
  exact ⟨u, linked, hu, hlink, image, hparse, hfetch _ _ (beq_iff_eq.mp hword) (by decide)⟩

/-- Placed one byte further, the word of the same source is not what the machine fetches. -/
theorem fetch_loadOne_unaligned :
    ∃ u linked image, Translation.ofSource? "a" {} "ld $1, %r1" = some u ∧
      link ([u].map (·.artifact)) [⟨".text", 0x40000001⟩] = .ok linked ∧
      Image.parse linked.image.print = .ok image ∧
      linked.image.get? 0x40000001 = some 0x91100001 ∧
      (Machine.start image).fetch 0x40000001 = 0 := by
  obtain ⟨u, linked, hu, hlink, hcheck⟩ := exists_of_linksTo "ld $1, %r1" 0x40000001
    (fun l => l.image.get? 0x40000001 == some 0x91100001 &&
      (Machine.start l.image).fetch 0x40000001 == 0) (by decide +kernel)
  obtain ⟨hword, hfetch⟩ := Bool.and_eq_true_iff.mp hcheck
  exact ⟨u, linked, linked.image, hu, hlink, Image.parse_print _, beq_iff_eq.mp hword,
    beq_iff_eq.mp hfetch⟩

end Toolchain32
