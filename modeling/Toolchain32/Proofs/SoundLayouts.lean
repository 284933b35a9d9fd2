import Toolchain32.Proofs.PlannedLayout

/-!
# Layouts behind any calls

Calls may come in any order of addresses, and go on after one that was refused. `Layout.Sound` is
what they all keep. In a sound layout every sum is small enough to be exact, so that a call does
what numbers without a bound say: `Layout.exact_of_calls`.
-/

namespace Toolchain32

def Layout.lastStop (l : Layout) : Nat := l.regions.getLast?.elim 0 Region.stop

inductive LayoutStep where
  | place (name : String) (address : Word) (size : Nat)
  | append (name : String) (size : Nat)
  deriving DecidableEq, Repr

namespace LayoutStep

def name : LayoutStep → String
  | place name .. => name
  | append name _ => name

def size : LayoutStep → Nat
  | place _ _ size => size
  | append _ size => size

def call : LayoutStep → LayoutCall (Option Word)
  | place name address size => (fun _ => none) <$> LayoutCall.place name address size
  | append name size => some <$> LayoutCall.append name size

def span (l : Layout) : LayoutStep → Span
  | place name address size => ⟨name, address.toNat, size⟩
  | append name size => ⟨name, l.top, size⟩

def Refused (l : Layout) : LayoutStep → Prop
  | place _ address size => address.toNat < l.lastStop ∨ addressSpace < address.toNat + size
  | append _ size => l.top = addressSpace ∨ addressSpace < l.top + size

def answer (r : Region) : LayoutStep → Option Word
  | place .. => none
  | append .. => some r.start

/-- A call is refused for the reasons there are, and does nothing then. Otherwise it adds the span
that is asked for. -/
structure Exact (l : Layout) (s : LayoutStep) : Prop where
  fails_iff : (∃ e, (s.call.outcome l).1 = .error e) ↔ s.Refused l
  unchanged : ∀ e next, s.call.outcome l = (.error e, next) → next = l
  adds : ∀ a next, s.call.outcome l = (.ok a, next) →
    ∃ r : Region, next.regions = l.regions ++ [r] ∧ r.span = s.span l ∧ a = s.answer r

end LayoutStep

namespace Layout

def run (l : Layout) (steps : List LayoutStep) : Layout :=
  steps.foldl (fun l s => (s.call.outcome l).2) l

/-- The spans that calls ask for, without those of the calls that fail. -/
def granted : Layout → List LayoutStep → List Span
  | _, [] => []
  | l, s :: rest =>
    match s.call.outcome l with
    | (.ok _, next) => s.span l :: next.granted rest
    | (.error _, next) => next.granted rest

structure Sound (l : Layout) : Prop where
  ordered : l.regions.Pairwise fun r s => r.stop ≤ s.start.toNat
  top_eq : l.top = l.lastStop
  within : l.top ≤ addressSpace

variable {l : Layout}

theorem sound_empty : empty.Sound := ⟨.nil, rfl, Nat.zero_le _⟩

theorem lastStop_append (regions : List Region) (r : Region) (top : Nat) :
    lastStop ⟨regions ++ [r], top⟩ = r.stop := by
  rw [lastStop, List.getLast?_concat]
  rfl

theorem Sound.stop_le_top (h : l.Sound) {r : Region} (hr : r ∈ l.regions) : r.stop ≤ l.top := by
  rw [h.top_eq, lastStop]
  cases hlast : l.regions.getLast? with
  | none =>
    rw [List.getLast?_eq_none_iff.mp hlast] at hr
    cases hr
  | some last =>
    obtain ⟨before, hregions⟩ := List.getLast?_eq_some_iff.mp hlast
    have hordered := h.ordered
    rw [hregions, List.pairwise_append] at hordered
    rw [hregions, List.mem_append, List.mem_singleton] at hr
    rcases hr with hr | rfl
    · exact Nat.le_trans (hordered.2.2 r hr last List.mem_cons_self) (Nat.le_add_right ..)
    · exact Nat.le_refl _

/-- A span behind everything, and in the address space, can be added. -/
theorem Sound.push (h : l.Sound) {s : Span} (hstart : s.start < addressSpace)
    (hsize : s.size < addressSpace) (hbehind : l.top ≤ s.start) (hstop : s.stop ≤ addressSpace) :
    (l.push s.name s.start s.size).Sound := by
  have hspan : s.region.span = s := Span.span_region hstart hsize
  have hstart' : s.region.start.toNat = s.start := congrArg Span.start hspan
  have hstop' : s.region.stop = s.stop := congrArg Span.stop hspan
  have htop : max l.top s.stop = s.stop :=
    Nat.max_eq_right (Nat.le_trans hbehind (Nat.le_add_right ..))
  refine ⟨?_, ?_, ?_⟩
  · apply List.pairwise_append.mpr
    refine ⟨h.ordered, List.pairwise_singleton .., ?_⟩
    intro r hr _ hs
    rw [List.mem_singleton.mp hs]
    exact Nat.le_trans (h.stop_le_top hr) (hstart'.symm ▸ hbehind)
  · exact htop.trans (hstop'.symm.trans (lastStop_append ..).symm)
  · exact htop.trans_le hstop

end Layout

section

variable {l : Layout} {name : String} {address : Word} {size : Nat}

theorem LayoutCall.outcome_place_of_below (h : address.toNat < l.lastStop) :
    ∃ e, (place name address size).outcome l = (.error e, l) := by
  rw [outcome_place]
  cases hlast : l.regions.getLast? with
  | none =>
    rw [Layout.lastStop, hlast] at h
    cases h
  | some previous =>
    have hbelow : address.toNat < previous.stop := by rwa [Layout.lastStop, hlast] at h
    exact ⟨_, if_pos hbelow⟩

theorem LayoutCall.outcome_place_of_behind (h : l.lastStop ≤ address.toNat) :
    (place name address size).outcome l = (claim name address.toNat size).outcome l := by
  rw [outcome_place]
  cases hlast : l.regions.getLast? with
  | none => rfl
  | some previous =>
    have hbehind : previous.stop ≤ address.toNat := by rwa [Layout.lastStop, hlast] at h
    exact if_neg (Nat.not_lt.mpr hbehind)

end

namespace LayoutStep

variable {l : Layout} {s : LayoutStep}

theorem size_span : (s.span l).size = s.size := by cases s <;> rfl

theorem outcome_of_refused (h : s.Refused l) : ∃ e, s.call.outcome l = (.error e, l) := by
  cases s with
  | place name address size =>
    rw [call, LayoutCall.outcome_map]
    by_cases hbelow : address.toNat < l.lastStop
    · obtain ⟨e, he⟩ := @LayoutCall.outcome_place_of_below l name address size hbelow
      exact ⟨e, by rw [he]; rfl⟩
    · have hstop : ¬ address.toNat + size ≤ addressSpace :=
        Nat.not_le.mpr (h.resolve_left hbelow)
      rw [LayoutCall.outcome_place_of_behind (Nat.not_lt.mp hbelow), LayoutCall.outcome_claim,
        if_neg hstop]
      exact ⟨_, rfl⟩
  | append name size =>
    have hroom : ¬ (l.top < addressSpace ∧ l.top + size ≤ addressSpace) := by
      rintro ⟨hstart, hstop⟩
      exact h.elim (Nat.ne_of_lt hstart) (Nat.not_lt.mpr hstop)
    rw [call, LayoutCall.outcome_map, LayoutCall.outcome_append, if_neg hroom]
    exact ⟨_, rfl⟩

/-- A span that is not refused is behind everything, and in the address space. -/
theorem bounds_of_not_refused (hl : l.Sound) (h : ¬ s.Refused l) :
    (s.span l).start < addressSpace ∧ l.top ≤ (s.span l).start ∧
      (s.span l).stop ≤ addressSpace := by
  cases s with
  | place name address size =>
    obtain ⟨hbehind, hstop⟩ := not_or.mp h
    exact ⟨address.toNat_lt, hl.top_eq ▸ Nat.not_lt.mp hbehind, Nat.not_lt.mp hstop⟩
  | append name size =>
    obtain ⟨hroom, hstop⟩ := not_or.mp h
    exact ⟨Nat.lt_of_le_of_ne hl.within hroom, Nat.le_refl _, Nat.not_lt.mp hstop⟩

theorem outcome_of_not_refused (hl : l.Sound) (h : ¬ s.Refused l) :
    s.call.outcome l = (.ok (s.answer (s.span l).region),
      l.push (s.span l).name (s.span l).start (s.span l).size) := by
  obtain ⟨hstart, hbehind, hstop⟩ := bounds_of_not_refused hl h
  cases s with
  | place name address size =>
    have hfits : address.toNat + size ≤ addressSpace := hstop
    rw [call, LayoutCall.outcome_map,
      LayoutCall.outcome_place_of_behind (hl.top_eq ▸ hbehind), LayoutCall.outcome_claim,
      if_pos hfits]
    rfl
  | append name size =>
    rw [call, LayoutCall.outcome_map, LayoutCall.outcome_append, if_pos ⟨hstart, hstop⟩]
    rfl

theorem span_region_span (hl : l.Sound) (h : ¬ s.Refused l) (hsize : s.size < addressSpace) :
    (s.span l).region.span = s.span l :=
  Span.span_region (bounds_of_not_refused hl h).1 (size_span.trans_lt hsize)

theorem exact_of_sound (hl : l.Sound) (hsize : s.size < addressSpace) : s.Exact l := by
  by_cases hrefused : s.Refused l
  · obtain ⟨e, he⟩ := outcome_of_refused hrefused
    refine ⟨?_, ?_, ?_⟩
    · rw [he]
      exact iff_of_true ⟨e, rfl⟩ hrefused
    · intro _ next hnext
      exact (congrArg Prod.snd (he.symm.trans hnext)).symm
    · intro a next hnext
      cases he.symm.trans hnext
  · have hok := outcome_of_not_refused hl hrefused
    refine ⟨?_, ?_, ?_⟩
    · have hanswer (e : LinkError) : (s.call.outcome l).1 ≠ .error e := by
        simp only [hok, ne_eq, reduceCtorEq, not_false_eq_true]
      exact iff_of_false (fun ⟨e, he⟩ => hanswer e he) hrefused
    · intro e next hnext
      cases hok.symm.trans hnext
    · intro a next hnext
      cases hok.symm.trans hnext
      exact ⟨_, rfl, span_region_span hl hrefused hsize, rfl⟩

theorem sound_next (hl : l.Sound) (hsize : s.size < addressSpace) :
    (s.call.outcome l).2.Sound := by
  by_cases hrefused : s.Refused l
  · obtain ⟨e, he⟩ := outcome_of_refused hrefused
    rwa [he]
  · obtain ⟨hstart, hbehind, hstop⟩ := bounds_of_not_refused hl hrefused
    rw [outcome_of_not_refused hl hrefused]
    exact hl.push hstart (size_span.trans_lt hsize) hbehind hstop

end LayoutStep

namespace Layout

variable {l : Layout} {steps : List LayoutStep}

theorem Sound.run (hl : l.Sound) (hsizes : ∀ s ∈ steps, s.size < addressSpace) :
    (l.run steps).Sound := by
  induction steps generalizing l with
  | nil => exact hl
  | cons s rest ih =>
    obtain ⟨hsize, hrest⟩ := List.forall_mem_cons.mp hsizes
    exact ih (LayoutStep.sound_next hl hsize) hrest

/-- Every call that is granted has left its span, just as it was asked for. -/
theorem map_span_run (hl : l.Sound) (hsizes : ∀ s ∈ steps, s.size < addressSpace) :
    (l.run steps).regions.map Region.span = l.regions.map Region.span ++ l.granted steps := by
  induction steps generalizing l with
  | nil => exact (List.append_nil _).symm
  | cons s rest ih =>
    obtain ⟨hsize, hrest⟩ := List.forall_mem_cons.mp hsizes
    have hrun : l.run (s :: rest) = (s.call.outcome l).2.run rest := rfl
    rw [hrun, ih (LayoutStep.sound_next hl hsize) hrest, granted]
    by_cases hrefused : s.Refused l
    · obtain ⟨e, he⟩ := LayoutStep.outcome_of_refused hrefused
      rw [he]
    · have hspan := LayoutStep.span_region_span hl hrefused hsize
      rw [LayoutStep.outcome_of_not_refused hl hrefused, push, List.map_append, List.append_assoc]
      exact congrArg (fun t => l.regions.map Region.span ++ t :: _) hspan

/-- Behind any calls with sizes below 2^32, the regions are in order and are those that were asked
for, the top is the end of the last one, and the next call does what it is meant to do. -/
theorem exact_of_calls (steps : List LayoutStep) (hsizes : ∀ s ∈ steps, s.size < addressSpace) :
    (empty.run steps).Sound ∧
      (empty.run steps).regions.map Region.span = empty.granted steps ∧
      ∀ s : LayoutStep, s.size < addressSpace → s.Exact (empty.run steps) := by
  have hsound := sound_empty.run hsizes
  exact ⟨hsound, map_span_run sound_empty hsizes, fun _ => LayoutStep.exact_of_sound hsound⟩

theorem exact_of_calls_refused :
    let steps : List LayoutStep :=
      [.place "a" 16 8, .place "b" 20 4, .append "c" 4, .append "d" 0xFFFFFFFF]
    (empty.run steps).regions = [⟨"a", 16, 8⟩, ⟨"c", 24, 4⟩] ∧ (empty.run steps).Sound ∧
      empty.granted steps = [⟨"a", 16, 8⟩, ⟨"c", 24, 4⟩] ∧
      LayoutStep.Refused (empty.run steps) (.place "e" 27 0) ∧
      LayoutStep.Exact (empty.run steps) (.place "e" 27 0) := by
  intro steps
  have hsizes : ∀ s ∈ steps, s.size < addressSpace := by decide
  obtain ⟨hsound, hspans, hnext⟩ := exact_of_calls steps hsizes
  have hregions : (empty.run steps).regions = [⟨"a", 16, 8⟩, ⟨"c", 24, 4⟩] := by decide
  refine ⟨hregions, hsound, ?_, .inl (by decide), hnext _ (by decide)⟩
  rw [← hspans, hregions]
  rfl

end Layout

end Toolchain32
