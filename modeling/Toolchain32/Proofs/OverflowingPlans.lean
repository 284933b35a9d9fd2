import Toolchain32.Proofs.LayoutRegions

/-!
# Plans that need more than the address space

A layout never cuts off what has no room. Where nothing else is wrong with a plan, a section that
would begin or end behind the last address makes the layout fail, and the error names such a
section: `layout_eq_error`.
-/

namespace Toolchain32

open Fallible

namespace Span

/-- There is no address for where the section is meant to begin, or for its last byte. -/
def Overflows (s : Span) : Prop := addressSpace ≤ s.start ∨ addressSpace < s.stop

def overflow (s : Span) : LinkError := .addressOverflow s.name s.start s.size

end Span

structure Consistent (sections : List (String × Nat)) (placements explicit : List Placement) :
    Prop where
  distinct : (placements.map (·.sectionName)).Nodup
  present : ∀ p ∈ placements, p.sectionName ∈ sections.map (·.1)
  apart : (placedSpans sections explicit).IsChain fun s t => s.stop ≤ t.start

namespace Layout

variable {spans : List Span} {l : Layout} {name : String} {address : Word} {size : Nat}

theorem claim_eq_error {start : Nat} (h : addressSpace < start + size) :
    l.claim name start size = .error (.addressOverflow name start size) := by
  rw [claim_eq, if_neg (Nat.not_le.mpr h)]

/-- A place behind the last region is claimed. -/
theorem place_ofSpans (h : Climbs (spans ++ [⟨name, address.toNat, size⟩])) :
    (ofSpans spans).place name address size = (ofSpans spans).claim name address.toNat size := by
  have hlast : (ofSpans spans).regions.getLast? = spans.getLast?.map Span.region :=
    List.getLast?_map
  have hbehind : ∀ s ∈ spans.getLast?, s.region.stop ≤ address.toNat := by
    simp only [Climbs, List.isChain_append] at h
    simpa using h.2.2
  rw [place_eq, hlast]
  cases hspans : spans.getLast? with
  | none => rfl
  | some last => exact if_neg (Nat.not_lt.mpr (hbehind last hspans))

/-- Placing sections in turn comes to one that overflows, and fails there. -/
theorem foldlM_place_eq_error (spans : List Span) (sections : List (String × Nat))
    (explicit : List Placement) (hclimbs : Climbs (spans ++ placedSpans sections explicit))
    (h : ∃ s ∈ placedSpans sections explicit, s.Overflows) :
    ∃ s ∈ placedSpans sections explicit, s.Overflows ∧
      explicit.foldlM (fun l p => l.place p.sectionName p.address
        ((sections.lookup p.sectionName).getD 0)) (ofSpans spans) = .error s.overflow := by
  induction explicit generalizing spans with
  | nil =>
    obtain ⟨_, hs, -⟩ := h
    cases hs
  | cons p rest ih =>
    let s : Span := ⟨p.sectionName, p.address.toNat, (sections.lookup p.sectionName).getD 0⟩
    have hsplit : placedSpans sections (p :: rest) = s :: placedSpans sections rest := rfl
    rw [hsplit, List.append_cons] at hclimbs
    rw [hsplit] at h ⊢
    rw [List.foldlM_cons, place_ofSpans (List.IsChain.left_of_append hclimbs)]
    by_cases hstop : addressSpace < s.stop
    · exact ⟨s, List.mem_cons_self, .inr hstop, by rw [claim_eq_error hstop]; rfl⟩
    · have hclaim : (ofSpans spans).claim s.name s.start s.size = .ok (ofSpans (spans ++ [s])) :=
        (claim_ofSpans_eq_ok ..).mpr ⟨Nat.not_lt.mp hstop, rfl⟩
      have hfits : ¬ s.Overflows := not_or.mpr ⟨Nat.not_le.mpr p.address.toNat_lt, hstop⟩
      have hrest := ((List.exists_mem_cons_iff ..).mp h).resolve_left hfits
      obtain ⟨t, ht, htoo, herror⟩ := ih _ hclimbs hrest
      exact ⟨t, List.mem_cons_of_mem _ ht, htoo, bind_eq_error.mpr (.inr ⟨_, hclaim, herror⟩)⟩

/-- Appending sections in turn comes to one that overflows, and fails there. -/
theorem foldlM_append_eq_error (others : List (String × Nat))
    (h : ∃ s ∈ stacked (highestStop spans) others, s.Overflows) :
    ∃ s ∈ stacked (highestStop spans) others, s.Overflows ∧
      others.foldlM (fun l s => l.append s.1 s.2) (ofSpans spans) = .error s.overflow := by
  induction others generalizing spans with
  | nil =>
    obtain ⟨_, hs, -⟩ := h
    cases hs
  | cons other rest ih =>
    let s : Span := ⟨other.1, highestStop spans, other.2⟩
    have htop : highestStop spans + other.2 = highestStop (spans ++ [s]) := by
      rw [highestStop_append]
      exact (Nat.max_eq_right (Nat.le_add_right ..)).symm
    rw [stacked, htop] at h ⊢
    rw [List.foldlM_cons]
    by_cases hs : s.Overflows
    · have hroom : ¬ (s.start < addressSpace ∧ s.stop ≤ addressSpace) := by
        rintro ⟨hstart, hstop⟩
        exact hs.elim (Nat.not_le.mpr hstart) (Nat.not_lt.mpr hstop)
      have happend : (ofSpans spans).append other.1 other.2 = .error s.overflow :=
        (append_ofSpans rfl).trans (if_neg hroom)
      exact ⟨s, List.mem_cons_self, hs, bind_eq_error.mpr (.inl happend)⟩
    · obtain ⟨hstart, hstop⟩ := not_or.mp hs
      have happend : (ofSpans spans).append other.1 other.2 = .ok (ofSpans (spans ++ [s])) :=
        (append_ofSpans rfl).trans (if_pos ⟨Nat.not_le.mp hstart, Nat.not_lt.mp hstop⟩)
      have hrest := ((List.exists_mem_cons_iff ..).mp h).resolve_left hs
      obtain ⟨t, ht, htoo, herror⟩ := ih hrest
      exact ⟨t, List.mem_cons_of_mem _ ht, htoo, bind_eq_error.mpr (.inr ⟨_, happend, herror⟩)⟩

end Layout

/-- A plan that needs too much room is refused. -/
theorem layout_eq_error {sections : List (String × Nat)} {placements : List Placement}
    (hconsistent : Consistent sections placements (byAddress placements))
    (h : ∃ s ∈ plannedSpans sections placements (byAddress placements), s.Overflows) :
    ∃ s ∈ plannedSpans sections placements (byAddress placements), s.Overflows ∧
      layout sections placements = .error s.overflow := by
  have hcheck : checkPlacements sections [] placements = .ok () :=
    (checkPlacements_eq_ok ..).mpr
      ⟨hconsistent.distinct, fun _ _ => List.not_mem_nil, hconsistent.present⟩
  have hclimbs := climbs_of_apart hconsistent.apart
  by_cases hplaced : ∃ s ∈ placedSpans sections (byAddress placements), s.Overflows
  · obtain ⟨s, hs, htoo, herror⟩ := Layout.foldlM_place_eq_error [] sections
      (byAddress placements) hclimbs hplaced
    exact ⟨s, List.mem_append_left _ hs, htoo,
      bind_eq_error.mpr (.inr ⟨(), hcheck, bind_eq_error.mpr (.inl herror)⟩)⟩
  · have hends : ∀ s ∈ placedSpans sections (byAddress placements), s.stop ≤ addressSpace :=
      fun s hs => Nat.not_lt.mp fun hlt => hplaced ⟨s, hs, .inr hlt⟩
    have hok := (Layout.foldlM_place_eq_ok sections (byAddress placements)
      (List.isChain_nil : Layout.Climbs [])).mpr ⟨hclimbs, hends, rfl⟩
    have happended : ∃ s ∈ appendedSpans sections placements (byAddress placements),
        s.Overflows := by
      obtain ⟨s, hs, htoo⟩ := h
      rcases List.mem_append.mp hs with hs | hs
      · exact absurd ⟨s, hs, htoo⟩ hplaced
      · exact ⟨s, hs, htoo⟩
    obtain ⟨s, hs, htoo, herror⟩ := Layout.foldlM_append_eq_error _ happended
    exact ⟨s, List.mem_append_right _ hs, htoo, bind_eq_error.mpr (.inr ⟨(), hcheck,
      bind_eq_error.mpr (.inr ⟨_, hok, bind_eq_error.mpr (.inl herror)⟩)⟩)⟩

end Toolchain32
