import Toolchain32.Proofs.LayoutRegions
import Toolchain32.Proofs.MergedSections

/-!
# Shares of merged sections

`base` is where the share of an object in a merged section begins: behind the shares of the objects
before it. The words of different shares have different addresses: `share_of_address`.
-/

namespace Toolchain32

/-- Where the share of the `i`-th object in a section begins: at the begin of the section's region
plus the sizes of the section in the objects before. -/
def base (regions : List Region) (objects : List Object) (i : Nat) (name : String) : Option Word :=
  (regions.find? (·.name == name)).map fun r =>
    r.start + UInt32.ofNat (sizeBefore objects i name)

def LaidOut (objects : List Object) (regions : List Region) : Prop :=
  Covers (mergedSizes objects) regions

theorem laidOut_of_layout {objects : List Object} {placements : List Placement}
    {regions : List Region} (h : layout (mergedSizes objects) placements = .ok regions)
    (hsmall : ∀ s ∈ mergedSizes objects, s.2 < addressSpace) : LaidOut objects regions :=
  covers_of_layout (nodup_mergedSizes _) h fun s hs => Nat.ne_of_lt (hsmall s hs)

variable {objects : List Object} {regions : List Region} {i j : Nat} {o p : Object}
  {name other : String} {b c : Word}

theorem base_eq_some (h : base regions objects i name = some b) :
    ∃ r ∈ regions, r.name = name ∧ b = r.start + UInt32.ofNat (sizeBefore objects i name) := by
  obtain ⟨r, hr, rfl⟩ := Option.map_eq_some_iff.mp h
  exact ⟨r, List.mem_of_find?_eq_some hr, by simpa using List.find?_some hr, rfl⟩

/-- A section that has a region has a share in it for each object that has the section. -/
theorem exists_base_of_names (hnames : ∀ name, name ∈ regions.map (·.name) ↔
    name ∈ (mergedSizes objects).map (·.1)) (ho : objects[i]? = some o)
    (hname : name ∈ o.sectionNames) : ∃ b, base regions objects i name = some b := by
  have hmem : name ∈ regions.map (·.name) :=
    (hnames name).mpr (mem_names_mergedSizes.mpr ⟨o, List.mem_of_getElem? ho, hname⟩)
  obtain ⟨r, hr, hrname⟩ := List.mem_map.mp hmem
  cases hfind : regions.find? (·.name == name) with
  | none =>
    have hnone := List.find?_eq_none.mp hfind r hr
    simp [hrname] at hnone
  | some r => exact ⟨_, by rw [base, hfind]; rfl⟩

namespace LaidOut

variable (h : LaidOut objects regions)

include h

theorem exists_base (ho : objects[i]? = some o) (hname : name ∈ o.sectionNames) :
    ∃ b, base regions objects i name = some b :=
  exists_base_of_names h.names ho hname

/-- A share lies within the region of its section. -/
theorem share_within {r : Region} (hr : r ∈ regions) (ho : objects[i]? = some o) :
    r.start.toNat + sizeBefore objects i r.name + o.sizeOf r.name ≤ r.stop := by
  have hsize := h.sizes r hr
  have hall := sizeBefore_le_mergedSizes objects r.name
  have hnext := sizeBefore_succ ho r.name
  have hsome := sizeBefore_length_le objects (i + 1) r.name
  unfold Region.stop
  omega

/-- The begin of a share that is not empty is a sum without overflow. -/
theorem toNat_base {r : Region} (hr : r ∈ regions) (ho : objects[i]? = some o)
    (hsize : 0 < o.sizeOf r.name) :
    (r.start + UInt32.ofNat (sizeBefore objects i r.name)).toNat =
      r.start.toNat + sizeBefore objects i r.name := by
  have hshare := h.share_within hr ho
  have hwithin := h.within r hr
  unfold addressSpace at hwithin
  rw [UInt32.toNat_add, UInt32.toNat_ofNat']
  omega

/-- The region of a share that is not empty, and the share's begin in it. -/
theorem exists_region (ho : objects[i]? = some o) (hb : base regions objects i name = some b)
    (hsize : 0 < o.sizeOf name) :
    ∃ r, regions.find? (·.name == name) = some r ∧ r ∈ regions ∧ r.name = name ∧
      b.toNat = r.start.toNat + sizeBefore objects i name := by
  obtain ⟨r, hr, rfl⟩ := Option.map_eq_some_iff.mp hb
  have hmem := List.mem_of_find?_eq_some hr
  have hname : r.name = name := by simpa using List.find?_some hr
  subst hname
  exact ⟨r, hr, hmem, rfl, h.toNat_base hmem ho hsize⟩

/-- So is the address of a word of a share. -/
theorem toNat_address {r : Region} (hr : r ∈ regions) (ho : objects[i]? = some o) {offset : Word}
    (hoffset : offset.toNat + 4 ≤ o.sizeOf r.name) :
    (r.start + UInt32.ofNat (sizeBefore objects i r.name) + offset).toNat =
      r.start.toNat + sizeBefore objects i r.name + offset.toNat := by
  have hshare := h.share_within hr ho
  have hwithin := h.within r hr
  unfold addressSpace at hwithin
  rw [UInt32.toNat_add, h.toNat_base hr ho (by omega)]
  omega

/-- A byte of a share tells its object and its section. -/
theorem share_of_byte {r q : Region} (hr : r ∈ regions) (hq : q ∈ regions)
    (ho : objects[i]? = some o) (hp : objects[j]? = some p) {x y : Nat}
    (hx : x < o.sizeOf r.name) (hy : y < p.sizeOf q.name)
    (heq : r.start.toNat + sizeBefore objects i r.name + x =
      q.start.toNat + sizeBefore objects j q.name + y) : i = j ∧ r = q := by
  have hleft := h.share_within hr ho
  have hright := h.share_within hq hp
  have hsame : r = q := h.region_unique hr hq
    (x := r.start.toNat + sizeBefore objects i r.name + x) ⟨by omega, by omega⟩
    ⟨by omega, by omega⟩
  subst hsame
  refine ⟨?_, rfl⟩
  -- In one section, the share of the later object begins behind all of the earlier one.
  have hnexti := sizeBefore_succ ho r.name
  have hnextj := sizeBefore_succ hp r.name
  rcases Nat.lt_trichotomy i j with hij | hij | hij
  · have hmono := sizeBefore_mono objects (show i + 1 ≤ j from hij) r.name
    omega
  · exact hij
  · have hmono := sizeBefore_mono objects (show j + 1 ≤ i from hij) r.name
    omega

/-- The address of a word tells its object, its section and its offset. -/
theorem share_of_address (ho : objects[i]? = some o) (hp : objects[j]? = some p)
    (hb : base regions objects i name = some b) (hc : base regions objects j other = some c)
    {x y : Word} (hx : x.toNat + 4 ≤ o.sizeOf name) (hy : y.toNat + 4 ≤ p.sizeOf other)
    (heq : b + x = c + y) : i = j ∧ name = other ∧ x = y := by
  obtain ⟨r, hr, rfl, rfl⟩ := base_eq_some hb
  obtain ⟨q, hq, rfl, rfl⟩ := base_eq_some hc
  have hsum := (h.toNat_address hr ho hx).symm.trans
    ((congrArg UInt32.toNat heq).trans (h.toNat_address hq hp hy))
  obtain ⟨rfl, rfl⟩ := h.share_of_byte hr hq ho hp (by omega) (by omega) hsum
  exact ⟨rfl, rfl, (UInt32.add_right_inj _).mp heq⟩

end LaidOut

theorem lookup_shares (regions : List Region) (f : Region → List (Option Word)) (name : String) :
    (regions.map fun r => (r.name, f r)).lookup name =
      (regions.find? (·.name == name)).map f := by
  induction regions with
  | nil => rfl
  | cons r rest ih =>
    by_cases hr : name = r.name
    · simp [hr]
    · simp [lookup_cons_ite, hr, Ne.symm hr, ih]

theorem start?_ofRegions (objects : List Object) (regions : List Region) (i : Nat)
    (name : String) :
    (Merged.ofRegions objects regions).start? i name =
      (objects[i]?.bind fun o => o.section? name).bind fun _ => base regions objects i name := by
  rw [Merged.start?, Merged.shareStart?, Merged.ofRegions, lookup_shares, base]
  cases hfind : regions.find? (·.name == name) with
  | none =>
    cases objects[i]?.bind fun o => o.section? name <;> rfl
  | some r =>
    have hname : r.name = name := by simpa using List.find?_some hfind
    simp only [Option.map_some, Option.bind_some, getElem?_shareStarts, hname]
    cases objects[i]? with
    | none => rfl
    | some o => cases hs : o.section? name <;> simp [hs]

theorem base_of_start? (h : (Merged.ofRegions objects regions).start? i name = some b) :
    base regions objects i name = some b := by
  rw [start?_ofRegions] at h
  obtain ⟨_, -, h⟩ := Option.bind_eq_some_iff.mp h
  exact h

theorem start?_of_base (ho : objects[i]? = some o) (hname : name ∈ o.sectionNames)
    (h : base regions objects i name = some b) :
    (Merged.ofRegions objects regions).start? i name = some b := by
  have hsome : (o.section? name).isSome = true := by
    obtain ⟨s, hs, rfl⟩ := List.mem_map.mp hname
    exact List.find?_isSome.mpr ⟨s, hs, by simp⟩
  obtain ⟨s, hs⟩ := Option.isSome_iff_exists.mp hsome
  rw [start?_ofRegions, ho, Option.bind_some, hs, Option.bind_some, h]

end Toolchain32
