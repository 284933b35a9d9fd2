import Toolchain32.Proofs.LocationWalk

/-!
# The labels of a survey

A survey takes the common walk over a program and adds the labels to it. `Survey.Sound` says that no
name is given to two labels or to a label and a section, and that every label lies within its
section; every survey of a program is sound.
-/

namespace Toolchain32.Survey

open Fallible

variable {implicit : Option String} {s s' : Survey} {name : String} {e : AssemblyError}
  {program : Program}

theorem enter_eq_ok (h : s.enter name = .ok s') :
    s'.locations = s.locations.enter name ∧ s'.labels = s.labels ∧
      (name ∈ s.locations.names ∨ name ∉ s.labels.map (·.name)) := by
  unfold enter at h
  split at h
  · cases h
  · rename_i hfree
    cases h
    refine ⟨rfl, rfl, ?_⟩
    by_cases hopened : name ∈ s.locations.names
    · exact .inl hopened
    · rw [← Locations.isOpened_iff] at hopened
      refine .inr ?_
      simpa [hopened, hasLabel] using hfree

theorem ensure_eq_ok {sectionName : String} (h : s.ensure implicit e = .ok (sectionName, s')) :
    s.locations.ensure implicit e = .ok (sectionName, s'.locations) ∧ s'.labels = s.labels ∧
      (s' = s ∨ s.enter sectionName = .ok s') := by
  unfold ensure at h
  split at h
  · rename_i current hcurrent
    cases h
    exact ⟨by simp only [Locations.ensure, hcurrent], rfl, .inl rfl⟩
  · rename_i name hcurrent
    obtain ⟨entered, henter, hpair⟩ := map_eq_ok.mp h
    cases hpair
    obtain ⟨hlocations, hlabels, -⟩ := enter_eq_ok henter
    exact ⟨by simp only [Locations.ensure, hcurrent, hlocations], hlabels, .inr henter⟩
  · cases h

theorem define_eq_ok (h : s.define implicit name = .ok s') :
    ∃ sectionName s₁, s.ensure implicit (.labelOutsideSection name) = .ok (sectionName, s₁) ∧
      name ∉ s₁.labels.map (·.name) ∧ name ∉ s₁.locations.names ∧
      s' = { s₁ with
        labels := s₁.labels ++ [⟨name, sectionName, s₁.locations.counter sectionName⟩] } := by
  obtain ⟨⟨sectionName, s₁⟩, hensure, h⟩ := bind_eq_ok.mp h
  simp only at h
  split at h
  · cases h
  · rename_i hfree
    simp only [Bool.or_eq_true, not_or, Locations.isOpened_iff] at hfree
    cases h
    exact ⟨sectionName, s₁, hensure, by simpa [hasLabel] using hfree.1, hfree.2, rfl⟩

theorem add_eq_ok {bytes : Except AssemblyError Nat} (h : s.add implicit bytes = .ok s') :
    ∃ sectionName s₁ n locations, s.ensure implicit .contentOutsideSection = .ok (sectionName, s₁) ∧
      bytes = .ok n ∧ s₁.locations.advance sectionName n = .ok locations ∧
      s' = { s₁ with locations } := by
  obtain ⟨⟨sectionName, s₁⟩, hensure, h⟩ := bind_eq_ok.mp h
  obtain ⟨n, hn, h⟩ := bind_eq_ok.mp h
  obtain ⟨locations, hlocations, h⟩ := bind_eq_ok.mp h
  exact ⟨sectionName, s₁, n, locations, hensure, hn, hlocations, (Except.ok.inj h).symm⟩

theorem line_eq_ok {line : Line} (h : s.line implicit line = .ok s') :
    ∃ s₁, (match line.label with
        | some name => s.define implicit name
        | none => .ok s) = .ok s₁ ∧
      (match line.statement with
        | some st => s₁.statement implicit st
        | none => .ok s₁) = .ok s' := by
  unfold Survey.line at h
  cases hl : line.label <;> rw [hl] at h <;> exact bind_eq_ok.mp h

theorem put_of_add {n : Nat} (h : s.add implicit (.ok n) = .ok s') :
    s.locations.put implicit n = .ok s'.locations ∧ s'.labels = s.labels := by
  obtain ⟨sectionName, s₁, _, locations, hensure, hn, hlocations, rfl⟩ := add_eq_ok h
  obtain ⟨hwalk, hlabels, -⟩ := ensure_eq_ok hensure
  cases hn
  exact ⟨bind_eq_ok.mpr ⟨_, hwalk, hlocations⟩, hlabels⟩

theorem followStatement_of_statement {st : Statement} (h : s.statement implicit st = .ok s') :
    s.locations.followStatement implicit st = .ok s'.locations ∧ s'.labels = s.labels := by
  cases st with
  | global names | external names | finish =>
    cases h
    exact ⟨rfl, rfl⟩
  | openSection name =>
    obtain ⟨hlocations, hlabels, -⟩ := enter_eq_ok h
    exact ⟨congrArg Except.ok hlocations.symm, hlabels⟩
  | words values | operation op => exact put_of_add h
  | skip n =>
    obtain ⟨_, _, bytes, _, _, hbytes, _, _⟩ := add_eq_ok h
    rw [statement, hbytes] at h
    obtain ⟨hput, hlabels⟩ := put_of_add h
    exact ⟨bind_eq_ok.mpr ⟨bytes, hbytes, hput⟩, hlabels⟩

def labelAt (implicit : Option String) (l : Locations) (line : Line) : List Label :=
  match line.label, l.current.or implicit with
  | some name, some sectionName => [⟨name, sectionName, l.counter sectionName⟩]
  | _, _ => []

theorem followLine_of_line {line : Line} (hs : s.locations.Sound)
    (h : s.line implicit line = .ok s') :
    s.locations.followLine implicit line = .ok s'.locations ∧
      s'.labels = s.labels ++ labelAt implicit s.locations line := by
  obtain ⟨s₁, hlabel, h⟩ := line_eq_ok h
  have h₁ : s.locations.followLabel implicit line.label = .ok s₁.locations ∧
      s₁.labels = s.labels ++ labelAt implicit s.locations line := by
    cases hl : line.label with
    | none =>
      rw [hl] at hlabel
      cases hlabel
      simp [Locations.followLabel, labelAt, hl]
    | some name =>
      rw [hl] at hlabel
      obtain ⟨sectionName, entered, hensure, -, -, rfl⟩ := define_eq_ok hlabel
      obtain ⟨hwalk, hlabels, -⟩ := ensure_eq_ok hensure
      obtain ⟨-, -, hsection, hcounter⟩ := Locations.ensure_eq_ok hs hwalk
      refine ⟨map_eq_ok.mpr ⟨_, hwalk, rfl⟩, ?_⟩
      simp only [labelAt, hl, hsection, hlabels, hcounter]
  cases hst : line.statement with
  | none =>
    rw [hst] at h
    cases h
    exact ⟨bind_eq_ok.mpr ⟨_, h₁.1, by rw [hst]; rfl⟩, h₁.2⟩
  | some st =>
    rw [hst] at h
    obtain ⟨hwalk, hlabels⟩ := followStatement_of_statement h
    exact ⟨bind_eq_ok.mpr ⟨_, h₁.1, by rw [hst]; exact hwalk⟩, hlabels.trans h₁.2⟩

/-- A line with a label is within a section. -/
theorem exists_section_of_line {line : Line} (hs : s.locations.Sound)
    (h : s.line implicit line = .ok s') (hname : line.label = some name) :
    ∃ sectionName, s.locations.current.or implicit = some sectionName := by
  obtain ⟨s₁, hlabel, -⟩ := line_eq_ok h
  rw [hname] at hlabel
  obtain ⟨sectionName, _, hensure, -⟩ := define_eq_ok hlabel
  exact ⟨sectionName, (Locations.ensure_eq_ok hs (ensure_eq_ok hensure).1).2.2.1⟩

theorem lines_cons {n : NumberedLine} {rest : Program} :
    s.lines implicit (n :: rest) = .ok s' ↔
      ∃ s₁, s.line implicit n.line = .ok s₁ ∧ s₁.lines implicit rest = .ok s' := by
  rw [lines]
  cases s.line implicit n.line <;> simp

theorem lines_append {rest : Program} :
    s.lines implicit (program ++ rest) = .ok s' ↔
      ∃ s₁, s.lines implicit program = .ok s₁ ∧ s₁.lines implicit rest = .ok s' := by
  induction program generalizing s with
  | nil => simp [lines]
  | cons n before ih =>
    simp only [List.cons_append, lines_cons, ih]
    constructor
    · rintro ⟨s₁, hline, s₂, hbefore, hrest⟩
      exact ⟨s₂, ⟨s₁, hline, hbefore⟩, hrest⟩
    · rintro ⟨s₂, ⟨s₁, hline, hbefore⟩, hrest⟩
      exact ⟨s₁, hline, s₂, hbefore, hrest⟩

theorem follow_of_lines (hs : s.locations.Sound) (h : s.lines implicit program = .ok s') :
    s.locations.follow implicit program = .ok s'.locations ∧ s.labels <+: s'.labels := by
  induction program generalizing s with
  | nil =>
    cases h
    exact ⟨rfl, List.prefix_refl _⟩
  | cons n rest ih =>
    obtain ⟨s₁, hline, hrest⟩ := lines_cons.mp h
    obtain ⟨hwalk, hlabels⟩ := followLine_of_line hs hline
    obtain ⟨hwalk', hlabels'⟩ := ih (hs.followLine hwalk) hrest
    exact ⟨bind_eq_ok.mpr ⟨_, hwalk, hwalk'⟩,
      (hlabels ▸ List.prefix_append ..).trans hlabels'⟩

/-- Every label is that of a line. -/
theorem exists_line_of_label (hs : s.locations.Sound) (h : s.lines implicit program = .ok s')
    {l : Label} (hl : l ∈ s'.labels) : l ∈ s.labels ∨
      ∃ before n after, program = before ++ n :: after ∧ n.line.label = some l.name := by
  induction program generalizing s with
  | nil =>
    cases h
    exact .inl hl
  | cons n rest ih =>
    obtain ⟨s₁, hline, hrest⟩ := lines_cons.mp h
    obtain ⟨hwalk, hlabels⟩ := followLine_of_line hs hline
    rcases ih (hs.followLine hwalk) hrest with hl | ⟨before, n', after, rfl, hname⟩
    · rw [hlabels, List.mem_append] at hl
      refine hl.imp_right fun hl => ⟨[], n, rest, rfl, ?_⟩
      unfold labelAt at hl
      split at hl
      · rw [‹n.line.label = _›, List.mem_singleton.mp hl]
      · cases hl
    · exact .inr ⟨n :: before, n', after, rfl, hname⟩

structure Sound (s : Survey) : Prop where
  locations : s.locations.Sound
  nodup : (s.labels.map (·.name)).Nodup
  apart : ∀ l ∈ s.labels, l.name ∉ s.locations.names
  opened : ∀ l ∈ s.labels, l.sectionName ∈ s.locations.names
  within : ∀ l ∈ s.labels, l.offset ≤ s.locations.counter l.sectionName

namespace Sound

theorem empty : Sound .empty where
  locations := .empty
  nodup := List.nodup_nil
  apart := by rintro _ ⟨⟩
  opened := by rintro _ ⟨⟩
  within := by rintro _ ⟨⟩

theorem enter (hs : s.Sound) (h : s.enter name = .ok s') : s'.Sound := by
  obtain ⟨hlocations, hlabels, hfree⟩ := enter_eq_ok h
  obtain ⟨locations, labels⟩ := s'
  subst hlocations hlabels
  refine ⟨hs.locations.enter name, hs.nodup, fun l hl hmem => ?_, fun l hl => ?_, fun l hl => ?_⟩
  · rcases Locations.mem_names_enter.mp hmem with hmem | heq
    · exact hs.apart l hl hmem
    · rcases hfree with hopened | hfree
      · exact hs.apart l hl (heq ▸ hopened)
      · exact hfree (heq ▸ List.mem_map_of_mem hl)
  · exact Locations.mem_names_enter.mpr (.inl (hs.opened l hl))
  · rw [Locations.counter_enter]
    exact hs.within l hl

theorem ensure {sectionName : String} (hs : s.Sound)
    (h : s.ensure implicit e = .ok (sectionName, s')) :
    s'.Sound ∧ sectionName ∈ s'.locations.names := by
  obtain ⟨hwalk, -, hsame⟩ := ensure_eq_ok h
  have hs' : s'.Sound := by
    rcases hsame with rfl | henter
    · exact hs
    · exact hs.enter henter
  exact ⟨hs', hs'.locations.current _ (Locations.ensure_eq_ok hs.locations hwalk).2.1⟩

theorem define (hs : s.Sound) (h : s.define implicit name = .ok s') : s'.Sound := by
  obtain ⟨sectionName, s₁, hensure, hlabel, hsection, rfl⟩ := define_eq_ok h
  obtain ⟨hs₁, hopened⟩ := hs.ensure hensure
  refine ⟨hs₁.locations, ?_, fun l hl => ?_, fun l hl => ?_, fun l hl => ?_⟩
  · rw [List.map_append, List.nodup_append]
    refine ⟨hs₁.nodup, by simp, ?_⟩
    rintro a ha b hb rfl
    obtain rfl : a = name := by simpa using hb
    exact hlabel ha
  all_goals rcases List.mem_append.mp hl with hl | hl
  · exact hs₁.apart l hl
  · obtain rfl := List.mem_singleton.mp hl
    exact hsection
  · exact hs₁.opened l hl
  · obtain rfl := List.mem_singleton.mp hl
    exact hopened
  · exact hs₁.within l hl
  · obtain rfl := List.mem_singleton.mp hl
    exact Nat.le_refl _

theorem add {bytes : Except AssemblyError Nat} (hs : s.Sound)
    (h : s.add implicit bytes = .ok s') : s'.Sound := by
  obtain ⟨sectionName, s₁, n, locations, hensure, -, hadvance, rfl⟩ := add_eq_ok h
  obtain ⟨hs₁, hopened⟩ := hs.ensure hensure
  have hnames := Locations.names_advance hadvance
  refine ⟨hs₁.locations.advance hadvance hopened, hs₁.nodup, fun l hl => ?_, fun l hl => ?_,
    fun l hl => ?_⟩
  · exact hnames ▸ hs₁.apart l hl
  · exact hnames ▸ hs₁.opened l hl
  · rw [Locations.counter_advance hadvance hopened]
    exact Nat.le_trans (hs₁.within l hl) (Nat.le_add_right ..)

theorem statement {st : Statement} (hs : s.Sound) (h : s.statement implicit st = .ok s') :
    s'.Sound := by
  cases st with
  | global names | external names | finish =>
    cases h
    exact hs
  | openSection name => exact hs.enter h
  | words values | skip n | operation op => exact hs.add h

theorem line {l : Line} (hs : s.Sound) (h : s.line implicit l = .ok s') : s'.Sound := by
  obtain ⟨s₁, hlabel, h⟩ := line_eq_ok h
  have hs₁ : s₁.Sound := by
    split at hlabel
    · exact hs.define hlabel
    · exact Except.ok.inj hlabel ▸ hs
  split at h
  · exact hs₁.statement h
  · exact Except.ok.inj h ▸ hs₁

theorem lines (hs : s.Sound) (h : s.lines implicit program = .ok s') : s'.Sound := by
  induction program generalizing s with
  | nil =>
    cases h
    exact hs
  | cons n rest ih =>
    obtain ⟨s₁, hline, hrest⟩ := lines_cons.mp h
    exact ih (hs.line hline) hrest

end Sound

/-- Every survey of a program is sound. -/
theorem sound_of_ofProgram (h : ofProgram implicit program = .ok s) : s.Sound :=
  Sound.empty.lines h

end Toolchain32.Survey
