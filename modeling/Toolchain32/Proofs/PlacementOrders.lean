import Toolchain32.Proofs.PlannedLayout

/-!
# Placements in another order

A layout sorts its placements by address, so their order can only matter among those of one
address. `exists_layout_iff` splits what a layout asks for into what is the same in every order,
`Placeable`, and `FilledLast`: of the placements of one address only the last may have a section
with bytes. Regions never depend on the order, only whether there are any: `layout_reordered`.
-/

namespace Toolchain32

def Placement.span (sections : List (String × Nat)) (p : Placement) : Span :=
  ⟨p.sectionName, p.address.toNat, (sections.lookup p.sectionName).getD 0⟩

section

variable (sections : List (String × Nat)) (placements : List Placement)

structure Placeable : Prop where
  distinct : (placements.map (·.sectionName)).Nodup
  present : ∀ p ∈ placements, p.sectionName ∈ sections.map (·.1)
  within : ∀ p ∈ placements, (p.span sections).stop ≤ addressSpace
  apart : ∀ p ∈ placements, ∀ q ∈ placements, p.address < q.address →
    (p.span sections).region.stop ≤ q.address.toNat
  room : ∀ s ∈ appendedSpans sections placements placements,
    s.start < addressSpace ∧ s.stop ≤ addressSpace

/-- Behind a section that is recorded with bytes there is no other placement of its address. A
section as large as the address space is recorded with none. -/
def FilledLast : Prop :=
  placements.Pairwise fun p q => p.address = q.address → (p.span sections).region.size = 0

end

variable {sections : List (String × Nat)} {placements explicit first second : List Placement}
  {regions regions' : List Region} {p q : Placement}

theorem Placement.stop_region_span : (p.span sections).region.stop =
    p.address.toNat + (p.span sections).region.size.toNat := by
  have hstart : (UInt32.ofNat p.address.toNat).toNat = p.address.toNat :=
    UInt32.toNat_ofNat_of_lt' p.address.toNat_lt
  change (UInt32.ofNat p.address.toNat).toNat + _ = _
  rw [hstart]

theorem Placement.stop_region_span_le_iff :
    (p.span sections).region.stop ≤ p.address.toNat ↔ (p.span sections).region.size = 0 := by
  rw [stop_region_span]
  constructor
  · intro h
    apply UInt32.toNat_inj.mp
    rw [UInt32.toNat_zero]
    omega
  · intro h
    rw [h, UInt32.toNat_zero]
    omega

/-- Placed sections climb if each pair of them does. -/
theorem climbs_iff_pairwise : Layout.Climbs (placedSpans sections explicit) ↔
    explicit.Pairwise fun p q => (p.span sections).region.stop ≤ q.address.toNat := by
  have htrans : IsTrans Placement fun p q => (p.span sections).region.stop ≤ q.address.toNat := by
    constructor
    intro p q r hpq hqr
    rw [Placement.stop_region_span (p := q)] at hqr
    omega
  have hchain : Layout.Climbs (placedSpans sections explicit) ↔
      explicit.IsChain fun p q => (p.span sections).region.stop ≤ q.address.toNat :=
    List.isChain_map ..
  rw [hchain, List.isChain_iff_pairwise]

/-- In ascending order, a pair of placements is either of two addresses or of one. -/
theorem pairwise_climbs_iff (hsorted : explicit.Pairwise fun p q => p.address ≤ q.address) :
    (explicit.Pairwise fun p q => (p.span sections).region.stop ≤ q.address.toNat) ↔
      (∀ p ∈ explicit, ∀ q ∈ explicit, p.address < q.address →
        (p.span sections).region.stop ≤ q.address.toNat) ∧ FilledLast sections explicit := by
  constructor
  · intro h
    refine ⟨?_, ?_⟩
    · intro p hp q hq hlt
      obtain ⟨i, hi, rfl⟩ := List.mem_iff_getElem.mp hp
      obtain ⟨j, hj, rfl⟩ := List.mem_iff_getElem.mp hq
      rw [List.pairwise_iff_getElem] at h hsorted
      rcases Nat.lt_trichotomy i j with hij | rfl | hji
      · exact h i j hi hj hij
      · exact absurd hlt (UInt32.lt_irrefl _)
      · exact absurd hlt (UInt32.not_lt.mpr (hsorted j i hj hi hji))
    · apply h.imp
      intro p q hstop heq
      rw [← heq] at hstop
      exact Placement.stop_region_span_le_iff.mp hstop
  · rintro ⟨hapart, hlast⟩
    -- An earlier placement has a smaller address, or the same one and then no bytes.
    have hboth := List.pairwise_and_iff.mpr ⟨hsorted, hlast⟩
    apply hboth.imp_of_mem
    intro p q hp hq ⟨hle, hsize⟩
    by_cases heq : p.address = q.address
    · rw [← heq]
      exact Placement.stop_region_span_le_iff.mpr (hsize heq)
    · exact hapart p hp q hq (UInt32.lt_of_le_of_ne hle heq)

theorem filledLast_iff_forall_address : FilledLast sections placements ↔ ∀ address,
    (placements.filter (·.address = address)).Pairwise fun p _ =>
      (p.span sections).region.size = 0 := by
  -- In these terms a stable sort keeps it, since it keeps the placements of each address.
  simp only [List.pairwise_filter, decide_eq_true_eq]
  constructor
  · intro h address
    apply h.imp
    intro p q hsize hp hq
    exact hsize (hp.trans hq.symm)
  · intro h
    rw [FilledLast, List.pairwise_iff_getElem]
    intro i j hi hj hij heq
    have haddress := h placements[i].address
    rw [List.pairwise_iff_getElem] at haddress
    exact haddress i j hi hj hij rfl heq.symm

theorem Ascending.filledLast_iff (h : Ascending placements explicit) :
    FilledLast sections explicit ↔ FilledLast sections placements := by
  simp only [filledLast_iff_forall_address, h.ties]

theorem highestStop_perm {spans others : List Span} (h : spans.Perm others) :
    highestStop spans = highestStop others := by
  apply h.foldl_eq'
  intro s _ t _ top
  omega

theorem appendedSpans_perm {explicit' : List Placement} (hplacements : first.Perm second)
    (hexplicit : explicit.Perm explicit') :
    appendedSpans sections first explicit = appendedSpans sections second explicit' := by
  have hany (name : String) :
      first.any (·.sectionName == name) = second.any (·.sectionName == name) :=
    hplacements.any_eq
  have htop : highestStop (placedSpans sections explicit) =
      highestStop (placedSpans sections explicit') := highestStop_perm (hexplicit.map _)
  simp only [appendedSpans, htop, hany]

theorem exists_layout_iff : (∃ regions, layout sections placements = .ok regions) ↔
    Placeable sections placements ∧ FilledLast sections placements := by
  have hasc := ascending_byAddress placements
  have hmem (p : Placement) : p ∈ byAddress placements ↔ p ∈ placements := hasc.perm.mem_iff
  have hspans : (∀ s ∈ placedSpans sections (byAddress placements), s.stop ≤ addressSpace) ↔
      ∀ p ∈ placements, (p.span sections).stop ≤ addressSpace := by
    rw [placedSpans, List.forall_mem_map]
    simp only [hmem]
    rfl
  simp only [layout_eq_ok hasc, exists_and_left, exists_eq', and_true]
  rw [climbs_iff_pairwise, pairwise_climbs_iff hasc.sorted, hasc.filledLast_iff, hspans,
    appendedSpans_perm (.refl _) hasc.perm]
  simp only [hmem]
  constructor
  · rintro ⟨⟨hdistinct, hpresent⟩, ⟨⟨hapart, hlast⟩, hwithin⟩, hroom⟩
    exact ⟨⟨hdistinct, hpresent, hwithin, hapart, hroom⟩, hlast⟩
  · rintro ⟨h, hlast⟩
    exact ⟨⟨h.distinct, h.present⟩, ⟨⟨h.apart, hlast⟩, h.within⟩, h.room⟩

theorem Placeable.perm (h : Placeable sections first) (hperm : first.Perm second) :
    Placeable sections second where
  distinct := (hperm.map _).nodup_iff.mp h.distinct
  present p hp := h.present p (hperm.mem_iff.mpr hp)
  within p hp := h.within p (hperm.mem_iff.mpr hp)
  apart p hp q hq := h.apart p (hperm.mem_iff.mpr hp) q (hperm.mem_iff.mpr hq)
  room := by
    rw [← appendedSpans_perm hperm hperm]
    exact h.room

/-- Every section has the same region, whatever the order of the placements. -/
theorem perm_of_layout (hperm : first.Perm second) (hfirst : layout sections first = .ok regions)
    (hsecond : layout sections second = .ok regions') : regions.Perm regions' := by
  have hasc := ascending_byAddress first
  have hasc' := ascending_byAddress second
  obtain ⟨-, -, -, rfl⟩ := (layout_eq_ok hasc).mp hfirst
  obtain ⟨-, -, -, rfl⟩ := (layout_eq_ok hasc').mp hsecond
  have hexplicit : (byAddress first).Perm (byAddress second) :=
    hasc.perm.trans (hperm.trans hasc'.perm.symm)
  apply List.Perm.map
  rw [plannedSpans, plannedSpans, appendedSpans_perm hperm hexplicit]
  exact (hexplicit.map _).append_right _

/-- For all sections and any two orders of the same placements, every section gets the same region
in both, and there is a layout in both or in neither, unless one of them has it and the other puts a
section behind a filled one of its address. -/
theorem layout_reordered (hperm : first.Perm second) :
    (∀ regions regions', layout sections first = .ok regions →
      layout sections second = .ok regions' → regions.Perm regions') ∧
    (((∃ regions, layout sections first = .ok regions) ↔
        ∃ regions, layout sections second = .ok regions) ↔
      ((∃ regions, layout sections first = .ok regions) → FilledLast sections second) ∧
        ((∃ regions, layout sections second = .ok regions) → FilledLast sections first)) := by
  refine ⟨fun _ _ hfirst hsecond => perm_of_layout hperm hfirst hsecond, ?_⟩
  have hplaceable : Placeable sections first ↔ Placeable sections second :=
    ⟨fun h => h.perm hperm, fun h => h.perm hperm.symm⟩
  simp only [exists_layout_iff, hplaceable]
  tauto

/-- An empty section at the beginning of a filled one is laid out before it, and refused after
it. -/
theorem layout_reordered_emptySection :
    let sections := [("a", 0), ("b", 4)]
    let first : List Placement := [⟨"a", 0⟩, ⟨"b", 0⟩]
    let second : List Placement := [⟨"b", 0⟩, ⟨"a", 0⟩]
    first.Perm second ∧ layout sections first = .ok [⟨"a", 0, 0⟩, ⟨"b", 0, 4⟩] ∧
      ¬ FilledLast sections second ∧ ¬ ∃ regions, layout sections second = .ok regions := by
  intro sections first second
  have hperm : first.Perm second := .swap ..
  have hasc : Ascending first first := ⟨by decide, fun _ => rfl⟩
  have hclimbs : Layout.Climbs (placedSpans sections first) :=
    climbs_iff_pairwise.mpr (by decide)
  have hfirst : layout sections first = .ok [⟨"a", 0, 0⟩, ⟨"b", 0, 4⟩] :=
    (layout_eq_ok hasc).mpr ⟨by decide, ⟨hclimbs, by decide⟩, by decide, by decide⟩
  have hlast : ¬ FilledLast sections second := by
    intro h
    have hsize := List.rel_of_pairwise_cons h List.mem_cons_self rfl
    exact absurd hsize (by decide)
  refine ⟨hperm, hfirst, hlast, ?_⟩
  intro hsecond
  have hiff := (layout_reordered hperm).2.mp ⟨fun _ => hsecond, fun _ => ⟨_, hfirst⟩⟩
  exact hlast (hiff.1 ⟨_, hfirst⟩)

end Toolchain32
