import Toolchain32.Proofs.PlannedLayout

/-!
# The regions of a layout

`Fits` says when the sections find room where they are meant to be, and `Covers` what the regions of
a layout are. A region has its size in 32 bits, so one section size is recorded wrongly, that of the
whole address space: `layout` does what is planned unless a section of that size gets a region
(`followsPlan_iff`).
-/

namespace Toolchain32

/-- The regions of a layout are in order and within the address space, and there is one for each
section, of its size. -/
structure Covers (sections : List (String × Nat)) (regions : List Region) : Prop where
  ordered : regions.Pairwise fun r q => r.stop ≤ q.start.toNat
  within : ∀ r ∈ regions, r.stop ≤ addressSpace
  nodup : (regions.map (·.name)).Nodup
  names : ∀ name, name ∈ regions.map (·.name) ↔ name ∈ sections.map (·.1)
  sizes : ∀ r ∈ regions, r.size.toNat = (sections.lookup r.name).getD 0

/-- An address lies in one region. -/
theorem Covers.region_unique {sections : List (String × Nat)} {regions : List Region}
    (h : Covers sections regions) {r q : Region} (hr : r ∈ regions) (hq : q ∈ regions) {x : Nat}
    (hxr : r.start.toNat ≤ x ∧ x < r.stop) (hxq : q.start.toNat ≤ x ∧ x < q.stop) : r = q := by
  have hordered := h.ordered
  rw [List.pairwise_iff_getElem] at hordered
  obtain ⟨k, hk, rfl⟩ := List.mem_iff_getElem.mp hr
  obtain ⟨l, hl, rfl⟩ := List.mem_iff_getElem.mp hq
  rcases Nat.lt_trichotomy k l with hkl | rfl | hkl
  · have hle := hordered k l hk hl hkl
    omega
  · rfl
  · have hle := hordered l k hl hk hkl
    omega

section

variable (sections : List (String × Nat)) (placements explicit : List Placement)

structure Fits : Prop where
  distinct : (placements.map (·.sectionName)).Nodup
  present : ∀ p ∈ placements, p.sectionName ∈ sections.map (·.1)
  apart : (placedSpans sections explicit).IsChain fun s t => s.stop ≤ t.start
  room : ∀ s ∈ appendedSpans sections placements explicit, s.start < addressSpace
  within : ∀ s ∈ plannedSpans sections placements explicit, s.stop ≤ addressSpace

structure FollowsPlan (result : Except LinkError (List Region)) : Prop where
  succeeds : (∃ regions, result = .ok regions) ↔ Fits sections placements explicit
  spans : ∀ regions, result = .ok regions →
    regions.map Region.span = plannedSpans sections placements explicit
  covers : ∀ regions, result = .ok regions → Covers sections regions
  disjoint : ∀ regions, result = .ok regions → ∀ r ∈ regions, ∀ q ∈ regions, ∀ x,
    (r.start.toNat ≤ x ∧ x < r.stop) → (q.start.toNat ≤ x ∧ x < q.stop) → r = q

end

section

variable {sections : List (String × Nat)} {placements explicit : List Placement}
  {regions : List Region}

theorem names_of_layout (h : layout sections placements = .ok regions) (name : String) :
    name ∈ regions.map (·.name) ↔ name ∈ sections.map (·.1) := by
  have hasc := ascending_byAddress placements
  obtain ⟨⟨-, hpresent⟩, -, -, rfl⟩ := (layout_eq_ok hasc).mp h
  rw [← mem_names_plannedSpans hasc hpresent, List.map_map]
  rfl

theorem nodup_names_of_layout (hnodup : (sections.map (·.1)).Nodup)
    (h : layout sections placements = .ok regions) : (regions.map (·.name)).Nodup := by
  have hasc := ascending_byAddress placements
  obtain ⟨⟨hdistinct, -⟩, -, -, rfl⟩ := (layout_eq_ok hasc).mp h
  rw [List.map_map]
  exact nodup_names_plannedSpans hnodup hasc hdistinct

theorem bounds_of_layout (hasc : Ascending placements explicit)
    (h : layout sections placements = .ok regions) {s : Span}
    (hs : s ∈ plannedSpans sections placements explicit) :
    s.start < addressSpace ∧ s.stop ≤ addressSpace := by
  obtain ⟨-, ⟨-, hplaced⟩, happended, -⟩ := (layout_eq_ok hasc).mp h
  rcases List.mem_append.mp hs with hs | hs
  · exact ⟨start_lt_of_mem_placedSpans hs, hplaced s hs⟩
  · exact happended s hs

/-- A section ends in the address space in its full size, also if that is recorded otherwise. -/
theorem end_le_of_layout (hnodup : (sections.map (·.1)).Nodup)
    (h : layout sections placements = .ok regions) {r : Region} (hr : r ∈ regions) :
    r.start.toNat + (sections.lookup r.name).getD 0 ≤ addressSpace := by
  have hasc := ascending_byAddress placements
  obtain ⟨-, -, -, rfl⟩ := (layout_eq_ok hasc).mp h
  obtain ⟨s, hs, rfl⟩ := List.mem_map.mp hr
  obtain ⟨hstart, hstop⟩ := bounds_of_layout hasc h hs
  have hexact : s.region.start.toNat = s.start := UInt32.toNat_ofNat_of_lt' hstart
  rw [Span.stop, size_of_mem_plannedSpans hnodup hs] at hstop
  rw [hexact]
  exact hstop

/-- If no section fills the whole address space, both numbers of every span are recorded as they
are. -/
theorem span_region_of_layout (hnodup : (sections.map (·.1)).Nodup)
    (hasc : Ascending placements explicit) (h : layout sections placements = .ok regions)
    (hsize : ∀ s ∈ sections, s.2 ≠ addressSpace) {s : Span}
    (hs : s ∈ plannedSpans sections placements explicit) : s.region.span = s := by
  obtain ⟨hstart, hstop⟩ := bounds_of_layout hasc h hs
  have hne : s.size ≠ addressSpace := by
    rw [size_of_mem_plannedSpans hnodup hs]
    cases hlookup : sections.lookup s.name with
    | none => exact (by decide : 0 ≠ addressSpace)
    | some size => exact hsize _ ((lookup_eq_some_iff_mem hnodup).mp hlookup)
  have hsum : s.stop = s.start + s.size := rfl
  apply Span.span_region hstart
  omega

/-- What fits is laid out. -/
theorem Fits.layout_eq (h : Fits sections placements explicit)
    (hasc : Ascending placements explicit) : layout sections placements =
      .ok ((plannedSpans sections placements explicit).map Span.region) := by
  refine (layout_eq_ok hasc).mpr
    ⟨⟨h.distinct, h.present⟩, ⟨climbs_of_apart h.apart, ?_⟩, ?_, rfl⟩
  · intro s hs
    exact h.within s (List.mem_append_left _ hs)
  · intro s hs
    exact ⟨h.room s hs, h.within s (List.mem_append_right _ hs)⟩

theorem fits_of_layout (hnodup : (sections.map (·.1)).Nodup)
    (hasc : Ascending placements explicit) (h : layout sections placements = .ok regions)
    (hsize : ∀ s ∈ sections, s.2 ≠ addressSpace) : Fits sections placements explicit := by
  obtain ⟨⟨hdistinct, hpresent⟩, ⟨hclimbs, -⟩, happended, -⟩ := (layout_eq_ok hasc).mp h
  refine ⟨hdistinct, hpresent, ?_, fun s hs => (happended s hs).1,
    fun s hs => (bounds_of_layout hasc h hs).2⟩
  refine List.IsChain.imp_of_mem_imp ?_ hclimbs
  intro s t hs _ hst
  have hexact := span_region_of_layout hnodup hasc h hsize (List.mem_append_left _ hs)
  have hstop : s.region.stop = s.stop := congrArg Span.stop hexact
  rwa [hstop] at hst

/-- Where both numbers of every span are recorded as they are, the regions cover the sections. -/
theorem Fits.covers (h : Fits sections placements explicit)
    (hnodup : (sections.map (·.1)).Nodup) (hasc : Ascending placements explicit)
    (hexact : ∀ s ∈ plannedSpans sections placements explicit, s.region.span = s) :
    Covers sections ((plannedSpans sections placements explicit).map Span.region) := by
  have hstop {s : Span} (hs : s ∈ plannedSpans sections placements explicit) :
      s.region.stop = s.stop := congrArg Span.stop (hexact s hs)
  have hnames : ((plannedSpans sections placements explicit).map Span.region).map (·.name) =
      (plannedSpans sections placements explicit).map (·.name) := by
    rw [List.map_map]
    rfl
  refine ⟨?_, ?_, ?_, ?_, ?_⟩
  · apply List.pairwise_map.mpr
    refine (pairwise_plannedSpans h.apart).imp_of_mem ?_
    intro s t hs ht hst
    have hstart : t.region.start.toNat = t.start := congrArg Span.start (hexact t ht)
    rwa [hstop hs, hstart]
  · intro r hr
    obtain ⟨s, hs, rfl⟩ := List.mem_map.mp hr
    exact hstop hs ▸ h.within s hs
  · rw [hnames]
    exact nodup_names_plannedSpans hnodup hasc h.distinct
  · intro name
    rw [hnames]
    exact mem_names_plannedSpans hasc h.present name
  · intro r hr
    obtain ⟨s, hs, rfl⟩ := List.mem_map.mp hr
    exact (congrArg Span.size (hexact s hs)).trans (size_of_mem_plannedSpans hnodup hs)

theorem covers_of_layout (hnodup : (sections.map (·.1)).Nodup)
    (h : layout sections placements = .ok regions) (hsize : ∀ s ∈ sections, s.2 ≠ addressSpace) :
    Covers sections regions := by
  have hasc := ascending_byAddress placements
  have hfits := fits_of_layout hnodup hasc h hsize
  obtain rfl := Except.ok.inj ((hfits.layout_eq hasc).symm.trans h)
  exact hfits.covers hnodup hasc fun s hs => span_region_of_layout hnodup hasc h hsize hs

/-- A region is recorded with both its numbers, so its section has another size than the whole
address space. -/
theorem ne_addressSpace_of_covers (hnodup : (sections.map (·.1)).Nodup)
    (h : Covers sections regions) : ∀ s ∈ sections, s.2 ≠ addressSpace := by
  intro s hs
  obtain ⟨r, hr, hname⟩ := List.mem_map.mp
    ((h.names s.1).mpr (List.mem_map_of_mem (f := (·.1)) hs))
  have hsize := h.sizes r hr
  rw [hname, lookup_eq_of_mem hnodup hs, Option.getD_some] at hsize
  have hlt : r.size.toNat < addressSpace := r.size.toNat_lt
  omega

/-- For every map of sections to sizes and all placements, the layout is the planned one, and it is
there exactly if the plan fits. The one exception is a layout with a section as large as the address
space: it is recorded with size zero. -/
theorem followsPlan_iff (hnodup : (sections.map (·.1)).Nodup)
    (hasc : Ascending placements explicit) :
    FollowsPlan sections placements explicit (layout sections placements) ↔
      ∀ regions, layout sections placements = .ok regions →
        ∀ s ∈ sections, s.2 ≠ addressSpace := by
  constructor
  · intro h regions hok
    exact ne_addressSpace_of_covers hnodup (h.covers regions hok)
  · intro hsizes
    refine ⟨⟨?_, fun h => ⟨_, h.layout_eq hasc⟩⟩, ?_, ?_, ?_⟩
    · rintro ⟨regions, hok⟩
      exact fits_of_layout hnodup hasc hok (hsizes regions hok)
    · intro regions hok
      obtain ⟨-, -, -, rfl⟩ := (layout_eq_ok hasc).mp hok
      have hexact : ∀ s ∈ plannedSpans sections placements explicit, s.region.span = s :=
        fun s hs => span_region_of_layout hnodup hasc hok (hsizes _ hok) hs
      rw [List.map_map]
      exact (List.map_congr_left hexact).trans (List.map_id _)
    · intro regions hok
      exact covers_of_layout hnodup hok (hsizes regions hok)
    · intro regions hok r hr q hq x hxr hxq
      exact (covers_of_layout hnodup hok (hsizes regions hok)).region_unique hr hq hxr hxq

/-- Two placements at one address, one of them of an empty section, and a section behind them. -/
theorem followsPlan_iff_ties :
    let sections := [("a", 4), ("b", 0), ("c", 8), ("d", 0)]
    let placements : List Placement := [⟨"d", 16⟩, ⟨"c", 16⟩, ⟨"b", 0⟩]
    let explicit : List Placement := [⟨"b", 0⟩, ⟨"d", 16⟩, ⟨"c", 16⟩]
    FollowsPlan sections placements explicit (layout sections placements) := by
  intro sections placements explicit
  have hasc : Ascending placements explicit := by
    refine ⟨by decide, ?_⟩
    intro address
    by_cases hzero : 0 = address
    · subst hzero
      rfl
    · simp [explicit, placements, List.filter_cons, hzero]
  exact (followsPlan_iff (by decide) hasc).mpr (fun _ _ => by decide)

/-- A section as large as the address space is recorded as an empty one, and another one may lie
in it. -/
example : layout [("a", 4294967296), ("b", 4)] [⟨"a", 0⟩, ⟨"b", 0⟩] =
    .ok [⟨"a", 0, 0⟩, ⟨"b", 0, 4⟩] := by
  cbv

end

end Toolchain32
