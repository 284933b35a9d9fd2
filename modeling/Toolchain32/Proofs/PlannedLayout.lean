import Mathlib.Data.List.Chain
import Toolchain32.Entries
import Toolchain32.Link.Layout
import Toolchain32.Proofs.Fallible
import Toolchain32.Proofs.LayoutCalls

/-!
# The plan of a layout

`plannedSpans` says where the sections are meant to be, in numbers of any size: the placed ones at
their addresses, by ascending address, and the others behind the highest end, one after the other.
`layout_eq_ok` says what a layout checks of them, and that it records them modulo 2^32.
-/

namespace Toolchain32

open Fallible

structure Span where
  name : String
  start : Nat
  size : Nat
  deriving DecidableEq, Repr

namespace Span

def stop (s : Span) : Nat := s.start + s.size

/-- The region that is recorded, which has both numbers modulo 2^32. -/
def region (s : Span) : Region := ⟨s.name, UInt32.ofNat s.start, UInt32.ofNat s.size⟩

end Span

def Region.span (r : Region) : Span := ⟨r.name, r.start.toNat, r.size.toNat⟩

def highestStop (spans : List Span) : Nat := spans.foldl (fun top s => max top s.stop) 0

def stacked : Nat → List (String × Nat) → List Span
  | _, [] => []
  | start, s :: rest => ⟨s.1, start, s.2⟩ :: stacked (start + s.2) rest

namespace Span

variable {s : Span}

theorem stop_region_le (hstart : s.start < addressSpace) : s.region.stop ≤ s.stop := by
  have hstart' : (UInt32.ofNat s.start).toNat = s.start := UInt32.toNat_ofNat_of_lt' hstart
  have hsize : (UInt32.ofNat s.size).toNat ≤ s.size := by
    rw [UInt32.toNat_ofNat']
    exact Nat.mod_le ..
  change (UInt32.ofNat s.start).toNat + (UInt32.ofNat s.size).toNat ≤ s.start + s.size
  omega

theorem span_region (hstart : s.start < addressSpace) (hsize : s.size < addressSpace) :
    s.region.span = s := by
  rw [region, Region.span, UInt32.toNat_ofNat_of_lt' hstart, UInt32.toNat_ofNat_of_lt' hsize]

end Span

theorem highestStop_append (spans : List Span) (s : Span) :
    highestStop (spans ++ [s]) = max (highestStop spans) s.stop := by
  rw [highestStop, List.foldl_append]
  rfl

/-- Placements in ascending order of their addresses, where those of one address are in the order
in which they were given. -/
structure Ascending (placements explicit : List Placement) : Prop where
  sorted : explicit.Pairwise fun p q => p.address ≤ q.address
  ties : ∀ address, explicit.filter (·.address = address) = placements.filter (·.address = address)

theorem ascending_byAddress (placements : List Placement) :
    Ascending placements (byAddress placements) := by
  let le : Placement → Placement → Bool := fun p q => p.address ≤ q.address
  have htrans (p q r : Placement) (hpq : le p q = true) (hqr : le q r = true) : le p r = true :=
    decide_eq_true (UInt32.le_trans (of_decide_eq_true hpq) (of_decide_eq_true hqr))
  have htotal (p q : Placement) : (le p q || le q p) = true := by
    simpa [le] using UInt32.le_total p.address q.address
  refine ⟨?_, ?_⟩
  · exact (List.pairwise_mergeSort htrans htotal placements).imp of_decide_eq_true
  · intro address
    have hequal : (placements.filter (·.address = address)).Pairwise fun p q => le p q = true := by
      apply List.pairwise_of_forall_mem_list
      intro p hp q hq
      have hp' : p.address = address := by simpa using (List.mem_filter.mp hp).2
      have hq' : q.address = address := by simpa using (List.mem_filter.mp hq).2
      exact decide_eq_true (by rw [hp', hq']; exact UInt32.le_refl _)
    have hsub := (List.sublist_mergeSort htrans htotal hequal List.filter_sublist).filter
      (·.address = address)
    rw [List.filter_filter] at hsub
    simp only [Bool.and_self] at hsub
    have hlength := ((List.mergeSort_perm placements le).filter (·.address = address)).length_eq
    exact (hsub.eq_of_length hlength.symm).symm

/-- The first element of a sorted list has no address above that of any element. -/
theorem address_le_of_mem {p q : Placement} {rest : List Placement}
    (h : (p :: rest).Pairwise fun p q => p.address ≤ q.address) (hq : q ∈ p :: rest) :
    p.address ≤ q.address := by
  rcases List.mem_cons.mp hq with rfl | hq
  · exact UInt32.le_refl _
  · exact List.rel_of_pairwise_cons h hq

theorem mem_iff_of_ties {first second : List Placement} (p : Placement)
    (h : ∀ address, first.filter (·.address = address) = second.filter (·.address = address)) :
    p ∈ first ↔ p ∈ second := by
  have hmem := congrArg (p ∈ ·) (h p.address)
  simpa using hmem

/-- A sorted list is known by its elements of every address. -/
theorem eq_of_ties {first second : List Placement}
    (hfirst : first.Pairwise fun p q => p.address ≤ q.address)
    (hsecond : second.Pairwise fun p q => p.address ≤ q.address)
    (hties : ∀ address, first.filter (·.address = address) = second.filter (·.address = address)) :
    first = second := by
  induction first generalizing second with
  | nil =>
    cases second with
    | nil => rfl
    | cons q rest =>
      exact absurd ((mem_iff_of_ties q hties).mpr List.mem_cons_self) List.not_mem_nil
  | cons p rest ih =>
    cases second with
    | nil => exact absurd ((mem_iff_of_ties p hties).mp List.mem_cons_self) List.not_mem_nil
    | cons q others =>
      have hpq := address_le_of_mem hfirst ((mem_iff_of_ties q hties).mpr List.mem_cons_self)
      have hqp := address_le_of_mem hsecond ((mem_iff_of_ties p hties).mp List.mem_cons_self)
      have haddress : p.address = q.address := UInt32.le_antisymm hpq hqp
      have hheads := hties q.address
      rw [List.filter_cons_of_pos (by simpa using haddress), List.filter_cons_of_pos (by simp)]
        at hheads
      obtain ⟨rfl, -⟩ := List.cons.inj hheads
      have htails (address : Word) :
          rest.filter (·.address = address) = others.filter (·.address = address) := by
        have h := hties address
        by_cases hp : p.address = address
        · simpa [List.filter_cons, hp] using h
        · simpa [List.filter_cons, hp] using h
      rw [ih (List.Pairwise.of_cons hfirst) (List.Pairwise.of_cons hsecond) htails]

theorem Ascending.eq_byAddress {placements explicit : List Placement}
    (h : Ascending placements explicit) : explicit = byAddress placements := by
  have h' := ascending_byAddress placements
  apply eq_of_ties h.sorted h'.sorted
  intro address
  rw [h.ties, h'.ties]

theorem Ascending.perm {placements explicit : List Placement} (h : Ascending placements explicit) :
    explicit.Perm placements :=
  h.eq_byAddress ▸ List.mergeSort_perm ..

section

variable (sections : List (String × Nat)) (placements explicit : List Placement)

def placedSpans : List Span :=
  explicit.map fun p => ⟨p.sectionName, p.address.toNat, (sections.lookup p.sectionName).getD 0⟩

def appendedSpans : List Span :=
  stacked (highestStop (placedSpans sections explicit))
    (sections.filter fun s => !placements.any (·.sectionName == s.1))

def plannedSpans : List Span :=
  placedSpans sections explicit ++ appendedSpans sections placements explicit

end

namespace Layout

def ofSpans (spans : List Span) : Layout := ⟨spans.map Span.region, highestStop spans⟩

variable {spans : List Span} {l : Layout}

theorem push_ofSpans (spans : List Span) (name : String) (start size : Nat) :
    (ofSpans spans).push name start size = ofSpans (spans ++ [⟨name, start, size⟩]) := by
  rw [ofSpans, ofSpans, highestStop_append, List.map_append]
  rfl

theorem claim_ofSpans_eq_ok (name : String) (start size : Nat) :
    (ofSpans spans).claim name start size = .ok l ↔
      start + size ≤ addressSpace ∧ ofSpans (spans ++ [⟨name, start, size⟩]) = l := by
  rw [claim_eq, push_ofSpans]
  by_cases hfits : start + size ≤ addressSpace
  · simp [hfits]
  · simp [hfits]

theorem append_ofSpans {name : String} {size : Nat} {s : Span}
    (hs : s = ⟨name, highestStop spans, size⟩) : (ofSpans spans).append name size =
      if s.start < addressSpace ∧ s.stop ≤ addressSpace then .ok (ofSpans (spans ++ [s]))
      else .error (.addressOverflow s.name s.start s.size) := by
  subst hs
  rw [append_eq, push_ofSpans]
  rfl

/-- Spans in the order that placing asks for, which goes by the recorded ends. -/
def Climbs (spans : List Span) : Prop := spans.IsChain fun s t => s.region.stop ≤ t.start

theorem place_ofSpans_eq_ok (h : Climbs spans) (name : String) (address : Word) (size : Nat) :
    (ofSpans spans).place name address size = .ok l ↔
      Climbs (spans ++ [⟨name, address.toNat, size⟩]) ∧ address.toNat + size ≤ addressSpace ∧
        ofSpans (spans ++ [⟨name, address.toNat, size⟩]) = l := by
  have hlast : (ofSpans spans).regions.getLast? = spans.getLast?.map Span.region :=
    List.getLast?_map
  have hclimbs : Climbs (spans ++ [⟨name, address.toNat, size⟩]) ↔
      ∀ s ∈ spans.getLast?, s.region.stop ≤ address.toNat := by
    simp only [Climbs, List.isChain_append] at h ⊢
    simp [h]
  rw [hclimbs, ← claim_ofSpans_eq_ok, place_eq, hlast]
  cases spans.getLast? with
  | none => simp
  | some last =>
    by_cases hbelow : address.toNat < last.region.stop
    · simp [hbelow]
    · simp [hbelow, Nat.not_lt.mp hbelow]

/-- Placing sections in turn succeeds if they climb and end in the address space. -/
theorem foldlM_place_eq_ok (sections : List (String × Nat)) (explicit : List Placement)
    (h : Climbs spans) :
    explicit.foldlM (fun l p => l.place p.sectionName p.address
        ((sections.lookup p.sectionName).getD 0)) (ofSpans spans) = .ok l ↔
      Climbs (spans ++ placedSpans sections explicit) ∧
        (∀ s ∈ placedSpans sections explicit, s.stop ≤ addressSpace) ∧
        ofSpans (spans ++ placedSpans sections explicit) = l := by
  induction explicit generalizing spans with
  | nil => simp [placedSpans, h, pure, Except.pure]
  | cons p rest ih =>
    let s : Span := ⟨p.sectionName, p.address.toNat, (sections.lookup p.sectionName).getD 0⟩
    have hsplit : placedSpans sections (p :: rest) = s :: placedSpans sections rest := rfl
    have hassoc : spans ++ s :: placedSpans sections rest =
        spans ++ [s] ++ placedSpans sections rest := by simp
    rw [List.foldlM_cons, bind_eq_ok, hsplit, hassoc]
    simp only [place_ofSpans_eq_ok h, List.forall_mem_cons]
    constructor
    · rintro ⟨_, ⟨hclimbs, hfits, rfl⟩, hrest⟩
      obtain ⟨hclimbs', hfits', hl⟩ := (ih hclimbs).mp hrest
      exact ⟨hclimbs', ⟨hfits, hfits'⟩, hl⟩
    · rintro ⟨hclimbs', ⟨hfits, hfits'⟩, hl⟩
      have hclimbs : Climbs (spans ++ [s]) := List.IsChain.left_of_append hclimbs'
      exact ⟨_, ⟨hclimbs, hfits, rfl⟩, (ih hclimbs).mpr ⟨hclimbs', hfits', hl⟩⟩

/-- Appending sections in turn succeeds if each begins, and ends, in the address space. -/
theorem foldlM_append_eq_ok (spans : List Span) (others : List (String × Nat)) :
    others.foldlM (fun l s => l.append s.1 s.2) (ofSpans spans) = .ok l ↔
      (∀ s ∈ stacked (highestStop spans) others, s.start < addressSpace ∧ s.stop ≤ addressSpace) ∧
        ofSpans (spans ++ stacked (highestStop spans) others) = l := by
  induction others generalizing spans with
  | nil => simp [stacked, pure, Except.pure]
  | cons other rest ih =>
    obtain ⟨name, size⟩ := other
    let s : Span := ⟨name, highestStop spans, size⟩
    have htop : highestStop (spans ++ [s]) = highestStop spans + size := by
      rw [highestStop_append]
      exact Nat.max_eq_right (Nat.le_add_right ..)
    have hassoc : spans ++ s :: stacked (highestStop spans + size) rest =
        spans ++ [s] ++ stacked (highestStop (spans ++ [s])) rest := by simp [htop]
    have happend (l' : Layout) : (ofSpans spans).append name size = .ok l' ↔
        (s.start < addressSpace ∧ s.stop ≤ addressSpace) ∧ ofSpans (spans ++ [s]) = l' := by
      rw [append_ofSpans (s := s) rfl]
      by_cases hroom : s.start < addressSpace ∧ s.stop ≤ addressSpace
      · rw [if_pos hroom, Except.ok.injEq]
        exact (and_iff_right hroom).symm
      · rw [if_neg hroom]
        exact ⟨nofun, fun h => absurd h.1 hroom⟩
    rw [List.foldlM_cons, bind_eq_ok, stacked, hassoc, List.forall_mem_cons, and_assoc, ← htop]
    simp only [happend]
    constructor
    · rintro ⟨_, ⟨hfits, rfl⟩, hrest⟩
      exact ⟨hfits, (ih _).mp hrest⟩
    · rintro ⟨hfits, hrest⟩
      exact ⟨_, ⟨hfits, rfl⟩, (ih _).mpr hrest⟩

end Layout

/-- Each placement is the only one of its section, and its section exists. -/
theorem checkPlacements_eq_ok (sections : List (String × Nat)) (seen : List String)
    (placements : List Placement) : checkPlacements sections seen placements = .ok () ↔
      (placements.map (·.sectionName)).Nodup ∧ (∀ p ∈ placements, p.sectionName ∉ seen) ∧
        ∀ p ∈ placements, p.sectionName ∈ sections.map (·.1) := by
  induction placements generalizing seen with
  | nil => simp [checkPlacements]
  | cons p rest ih =>
    have hfresh : (∀ q ∈ rest, q.sectionName ∉ p.sectionName :: seen) ↔
        p.sectionName ∉ rest.map (·.sectionName) ∧ ∀ q ∈ rest, q.sectionName ∉ seen := by
      simp only [List.mem_cons, not_or, List.mem_map, not_exists, not_and, forall_and]
    rw [checkPlacements, List.map_cons, List.nodup_cons, List.forall_mem_cons,
      List.forall_mem_cons]
    by_cases hseen : p.sectionName ∈ seen
    · simp [hseen]
    · by_cases hexists : p.sectionName ∈ sections.map (·.1)
      · have hany : sections.any (·.1 == p.sectionName) = true := by simpa using hexists
        have hcontains : ¬ seen.contains p.sectionName = true := by simpa using hseen
        rw [if_neg hcontains, if_pos hany, ih, hfresh]
        simp only [hseen, hexists, not_false_eq_true, true_and]
        rw [and_assoc, and_left_comm, and_assoc]
      · have hany : ¬ sections.any (·.1 == p.sectionName) = true := by simpa using hexists
        simp [hseen, hexists, hany]

section

variable {sections : List (String × Nat)} {placements explicit : List Placement}
  {regions : List Region}

/-- What a layout checks, and what it records. -/
theorem layout_eq_ok (hasc : Ascending placements explicit) :
    layout sections placements = .ok regions ↔
      ((placements.map (·.sectionName)).Nodup ∧
        ∀ p ∈ placements, p.sectionName ∈ sections.map (·.1)) ∧
      (Layout.Climbs (placedSpans sections explicit) ∧
        ∀ s ∈ placedSpans sections explicit, s.stop ≤ addressSpace) ∧
      (∀ s ∈ appendedSpans sections placements explicit,
        s.start < addressSpace ∧ s.stop ≤ addressSpace) ∧
      (plannedSpans sections placements explicit).map Span.region = regions := by
  obtain rfl := hasc.eq_byAddress
  have hplace := fun l => Layout.foldlM_place_eq_ok (l := l) sections (byAddress placements)
    (List.isChain_nil : Layout.Climbs [])
  have happend := fun l => Layout.foldlM_append_eq_ok (l := l)
    (placedSpans sections (byAddress placements))
    (sections.filter fun s => !placements.any (·.sectionName == s.1))
  simp only [List.nil_append] at hplace
  simp only [layout, bind_eq_ok]
  constructor
  · rintro ⟨⟨⟩, hcheck, _, hplaced, _, happended, hregions⟩
    obtain ⟨hnodup, -, hexist⟩ := (checkPlacements_eq_ok ..).mp hcheck
    obtain ⟨hclimbs, hends, rfl⟩ := (hplace _).mp hplaced
    obtain ⟨hfit, rfl⟩ := (happend _).mp happended
    exact ⟨⟨hnodup, hexist⟩, ⟨hclimbs, hends⟩, hfit, Except.ok.inj hregions⟩
  · rintro ⟨⟨hnodup, hexist⟩, ⟨hclimbs, hends⟩, hfit, hregions⟩
    have hcheck : checkPlacements sections [] placements = .ok () :=
      (checkPlacements_eq_ok ..).mpr ⟨hnodup, fun _ _ => List.not_mem_nil, hexist⟩
    exact ⟨(), hcheck, _, (hplace _).mpr ⟨hclimbs, hends, rfl⟩, _, (happend _).mpr ⟨hfit, rfl⟩,
      congrArg Except.ok hregions⟩

theorem map_stacked (start : Nat) (others : List (String × Nat)) :
    (stacked start others).map (fun s => (s.name, s.size)) = others := by
  induction others generalizing start with
  | nil => rfl
  | cons other rest ih => rw [stacked, List.map_cons, ih]

theorem mem_names_others {name : String} :
    name ∈ (sections.filter fun s => !placements.any (·.sectionName == s.1)).map (·.1) ↔
      name ∈ sections.map (·.1) ∧ name ∉ placements.map (·.sectionName) := by
  simp only [List.mem_map, List.mem_filter, Bool.not_eq_true', List.any_eq_false, beq_iff_eq,
    not_exists, not_and]
  constructor
  · rintro ⟨s, ⟨hs, hfree⟩, rfl⟩
    exact ⟨⟨s, hs, rfl⟩, hfree⟩
  · rintro ⟨⟨s, hs, rfl⟩, hfree⟩
    exact ⟨s, ⟨hs, hfree⟩, rfl⟩

theorem names_plannedSpans : (plannedSpans sections placements explicit).map (·.name) =
    explicit.map (·.sectionName) ++
      (sections.filter fun s => !placements.any (·.sectionName == s.1)).map (·.1) := by
  have happended := congrArg (List.map Prod.fst) (map_stacked
    (highestStop (placedSpans sections explicit))
    (sections.filter fun s => !placements.any (·.sectionName == s.1)))
  rw [List.map_map] at happended
  rw [plannedSpans, List.map_append, placedSpans, List.map_map, ← happended]
  rfl

/-- The placed sections, and then the others, are all sections. -/
theorem mem_names_plannedSpans (hasc : Ascending placements explicit)
    (hpresent : ∀ p ∈ placements, p.sectionName ∈ sections.map (·.1)) (name : String) :
    name ∈ (plannedSpans sections placements explicit).map (·.name) ↔
      name ∈ sections.map (·.1) := by
  rw [names_plannedSpans, List.mem_append, (hasc.perm.map _).mem_iff, mem_names_others]
  constructor
  · rintro (hname | hname)
    · obtain ⟨p, hp, rfl⟩ := List.mem_map.mp hname
      exact hpresent p hp
    · exact hname.1
  · intro hname
    by_cases hp : name ∈ placements.map (·.sectionName)
    · exact .inl hp
    · exact .inr ⟨hname, hp⟩

theorem nodup_names_plannedSpans (hnodup : (sections.map (·.1)).Nodup)
    (hasc : Ascending placements explicit)
    (hdistinct : (placements.map (·.sectionName)).Nodup) :
    ((plannedSpans sections placements explicit).map (·.name)).Nodup := by
  have hperm := hasc.perm.map (·.sectionName)
  rw [names_plannedSpans]
  apply List.nodup_append.mpr
  refine ⟨hperm.nodup_iff.mpr hdistinct, hnodup.sublist (List.filter_sublist.map _), ?_⟩
  intro a ha b hb hab
  exact (mem_names_others.mp hb).2 (hab ▸ hperm.mem_iff.mp ha)

/-- Each section is in the plan with its size. -/
theorem size_of_mem_plannedSpans (hnodup : (sections.map (·.1)).Nodup) {s : Span}
    (hs : s ∈ plannedSpans sections placements explicit) :
    s.size = (sections.lookup s.name).getD 0 := by
  rcases List.mem_append.mp hs with hs | hs
  · obtain ⟨p, -, rfl⟩ := List.mem_map.mp hs
    rfl
  · have hmem := List.mem_map_of_mem (f := fun s : Span => (s.name, s.size)) hs
    rw [appendedSpans, map_stacked] at hmem
    rw [lookup_eq_of_mem hnodup (List.mem_filter.mp hmem).1]
    rfl

theorem start_lt_of_mem_placedSpans {s : Span} (hs : s ∈ placedSpans sections explicit) :
    s.start < addressSpace := by
  obtain ⟨p, -, rfl⟩ := List.mem_map.mp hs
  exact p.address.toNat_lt

/-- Where sections are apart in their full sizes, they are so in the recorded ones. -/
theorem climbs_of_apart (h : (placedSpans sections explicit).IsChain fun s t => s.stop ≤ t.start) :
    Layout.Climbs (placedSpans sections explicit) := by
  refine List.IsChain.imp_of_mem_imp ?_ h
  intro s t hs _ hst
  exact Nat.le_trans (Span.stop_region_le (start_lt_of_mem_placedSpans hs)) hst

theorem stop_le_highestStop {spans : List Span} {s : Span} (hs : s ∈ spans) :
    s.stop ≤ highestStop spans := by
  induction spans using List.reverseRecOn with
  | nil => cases hs
  | append_singleton spans t ih =>
    rw [highestStop_append]
    rcases List.mem_append.mp hs with hs | hs
    · exact Nat.le_trans (ih hs) (Nat.le_max_left ..)
    · exact List.mem_singleton.mp hs ▸ Nat.le_max_right ..

theorem le_start_of_mem_stacked {start : Nat} {others : List (String × Nat)} {s : Span}
    (hs : s ∈ stacked start others) : start ≤ s.start := by
  induction others generalizing start with
  | nil => cases hs
  | cons other rest ih =>
    rcases List.mem_cons.mp hs with rfl | hs
    · exact Nat.le_refl _
    · exact Nat.le_trans (Nat.le_add_right ..) (ih hs)

theorem pairwise_stacked (start : Nat) (others : List (String × Nat)) :
    (stacked start others).Pairwise fun s t => s.stop ≤ t.start := by
  induction others generalizing start with
  | nil => exact .nil
  | cons other rest ih => exact .cons (fun _ ht => le_start_of_mem_stacked ht) (ih _)

/-- If the placed sections do not overlap, no two sections do: the others are behind them all. -/
theorem pairwise_plannedSpans
    (hapart : (placedSpans sections explicit).IsChain fun s t => s.stop ≤ t.start) :
    (plannedSpans sections placements explicit).Pairwise fun s t => s.stop ≤ t.start := by
  have htrans : IsTrans Span fun s t => s.stop ≤ t.start :=
    ⟨fun s t u hst htu => Nat.le_trans (Nat.le_trans hst (Nat.le_add_right ..)) htu⟩
  refine List.pairwise_append.mpr ⟨List.isChain_iff_pairwise.mp hapart, pairwise_stacked .., ?_⟩
  intro s hs t ht
  exact Nat.le_trans (stop_le_highestStop hs) (le_start_of_mem_stacked ht)

end

end Toolchain32
