import Mathlib.Algebra.BigOperators.Ring.List
import Mathlib.Algebra.Ring.Nat
import Toolchain32.Proofs.MergedSections
import Toolchain32.Proofs.PlannedLayout

/-!
# Whole words in a layout

Nothing in a layout asks for whole words. Regions are made of whole words nevertheless if the
sections are, and if no placement says otherwise: `isAligned_of_layout`.
-/

namespace Toolchain32

def Word.IsAligned (w : Word) : Prop := 4 ∣ w.toNat

namespace Word

instance : DecidablePred IsAligned := fun w => inferInstanceAs (Decidable (4 ∣ w.toNat))

theorem isAligned_ofNat {n : Nat} (h : 4 ∣ n) : IsAligned (UInt32.ofNat n) := by
  rw [IsAligned, UInt32.toNat_ofNat']
  omega

theorem IsAligned.add {v w : Word} (hv : IsAligned v) (hw : IsAligned w) : IsAligned (v + w) := by
  unfold IsAligned at *
  rw [UInt32.toNat_add]
  omega

theorem aligned_eq_self {w : Word} (h : IsAligned w) : aligned w = w := by
  apply UInt32.toNat_inj.mp
  rw [toNat_aligned, Nat.div_mul_cancel h]

end Word

theorem dvd_highestStop {spans : List Span} (h : ∀ s ∈ spans, 4 ∣ s.start ∧ 4 ∣ s.size) :
    4 ∣ highestStop spans := by
  induction spans using List.reverseRecOn with
  | nil => exact Nat.dvd_zero 4
  | append_singleton spans s ih =>
    obtain ⟨hstart, hsize⟩ := h s (List.mem_append_right _ List.mem_cons_self)
    have htop := ih fun t ht => h t (List.mem_append_left _ ht)
    have hstop : 4 ∣ s.stop := Nat.dvd_add hstart hsize
    rw [highestStop_append]
    omega

theorem dvd_start_stacked {start : Nat} {others : List (String × Nat)} (hstart : 4 ∣ start)
    (h : ∀ s ∈ others, 4 ∣ s.2) : ∀ s ∈ stacked start others, 4 ∣ s.start := by
  induction others generalizing start with
  | nil => exact fun _ hs => absurd hs List.not_mem_nil
  | cons other rest ih =>
    intro s hs
    rcases List.mem_cons.mp hs with rfl | hs
    · exact hstart
    · have hnext : 4 ∣ start + other.2 := Nat.dvd_add hstart (h other List.mem_cons_self)
      exact ih hnext (fun s hs => h s (List.mem_cons_of_mem _ hs)) s hs

/-- Sections of whole words, placed at words, begin at words. -/
theorem isAligned_of_layout {sections : List (String × Nat)} {placements : List Placement}
    {regions : List Region} (hsizes : ∀ s ∈ sections, 4 ∣ s.2)
    (hplaced : ∀ p ∈ placements, p.address.IsAligned)
    (h : layout sections placements = .ok regions) : ∀ r ∈ regions, r.start.IsAligned := by
  have hasc := ascending_byAddress placements
  obtain ⟨-, -, -, rfl⟩ := (layout_eq_ok hasc).mp h
  have hsize (name : String) : 4 ∣ (sections.lookup name).getD 0 := by
    cases hlookup : sections.lookup name with
    | none => exact Nat.dvd_zero 4
    | some size =>
      obtain ⟨before, after, rfl, -⟩ := List.lookup_eq_some_iff.mp hlookup
      exact hsizes (name, size) (List.mem_append_right _ List.mem_cons_self)
  have hspans : ∀ s ∈ placedSpans sections (byAddress placements),
      4 ∣ s.start ∧ 4 ∣ s.size := by
    intro s hs
    obtain ⟨p, hp, rfl⟩ := List.mem_map.mp hs
    exact ⟨hplaced p (hasc.perm.mem_iff.mp hp), hsize _⟩
  intro r hr
  obtain ⟨s, hs, rfl⟩ := List.mem_map.mp hr
  apply Word.isAligned_ofNat
  rcases List.mem_append.mp hs with hs | hs
  · exact (hspans s hs).1
  · exact dvd_start_stacked (dvd_highestStop hspans)
      (fun s hs => hsizes s (List.mem_filter.mp hs).1) s hs

theorem aligned_addSize {name : String} {size : Nat} {sizes : List (String × Nat)}
    (hsize : 4 ∣ size) (h : ∀ s ∈ sizes, 4 ∣ s.2) : ∀ s ∈ addSize name size sizes, 4 ∣ s.2 := by
  induction sizes with
  | nil =>
    intro s hs
    obtain rfl := List.mem_singleton.mp hs
    exact hsize
  | cons e rest ih =>
    obtain ⟨key, total⟩ := e
    have htotal : 4 ∣ total := h (key, total) List.mem_cons_self
    have hrest : ∀ s ∈ rest, 4 ∣ s.2 := fun s hs => h s (List.mem_cons_of_mem _ hs)
    intro s hs
    rw [addSize] at hs
    split at hs
    · rcases List.mem_cons.mp hs with rfl | hs
      · exact Nat.dvd_add htotal hsize
      · exact hrest s hs
    · rcases List.mem_cons.mp hs with rfl | hs
      · exact htotal
      · exact ih hrest s hs

theorem aligned_sumSizes {sections : List Section} {sizes : List (String × Nat)}
    (hsections : ∀ s ∈ sections, s.size.IsAligned) (h : ∀ s ∈ sizes, 4 ∣ s.2) :
    ∀ s ∈ sumSizes sizes sections, 4 ∣ s.2 := by
  induction sections generalizing sizes with
  | nil => exact h
  | cons s rest ih =>
    exact ih (fun s hs => hsections s (List.mem_cons_of_mem _ hs))
      (aligned_addSize (hsections s List.mem_cons_self) h)

variable {objects : List Object} (h : ∀ o ∈ objects, ∀ s ∈ o.sections, s.size.IsAligned)

include h

theorem aligned_mergedSizes : ∀ s ∈ mergedSizes objects, 4 ∣ s.2 := by
  rw [mergedSizes_eq]
  refine aligned_sumSizes (fun s hs => ?_) (by rintro _ ⟨⟩)
  obtain ⟨o, ho, hs⟩ := List.mem_flatMap.mp hs
  exact h o ho s hs

theorem aligned_sizeBefore (i : Nat) (name : String) : 4 ∣ sizeBefore objects i name := by
  rw [sizeBefore]
  refine List.dvd_sum fun size hsize => ?_
  obtain ⟨o, ho, rfl⟩ := List.mem_map.mp hsize
  rw [Object.sizeOf]
  cases hsection : o.section? name with
  | none => exact Nat.dvd_zero 4
  | some s => exact h o (List.mem_of_mem_take ho) s (List.mem_of_find?_eq_some hsection)

end Toolchain32
