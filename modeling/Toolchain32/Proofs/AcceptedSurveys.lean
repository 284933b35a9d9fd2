import Toolchain32.Proofs.SurveyedLabels

/-!
# Which surveys succeed

A survey fails where the walk over the program does, and where a label has the name of another label
or of a section. It finds that out whichever of the two comes first, so that `exists_lines_iff`
compares the labels with all sections that the walk opens.
-/

namespace Toolchain32

open Fallible

def Program.labels (program : Program) : List String := program.filterMap (·.line.label)

theorem Program.labels_cons (n : NumberedLine) (rest : Program) :
    Program.labels (n :: rest) = n.line.label.toList ++ Program.labels rest := by
  rw [Program.labels, List.filterMap_cons]
  cases n.line.label <;> rfl

namespace Survey

variable {implicit : Option String} {s s' : Survey} {l : Locations} {name : String}
  {program : Program}

def Apart (s : Survey) (l : Locations) : Prop := ∀ name ∈ s.labels.map (·.name), name ∉ l.names

theorem enter_eq_of_apart (h : s.Apart (s.locations.enter name)) :
    s.enter name = .ok { s with locations := s.locations.enter name } := by
  have hfree : s.hasLabel name = false := by
    rw [Bool.eq_false_iff]
    intro hlabel
    refine h name ?_ (Locations.mem_names_enter.mpr (.inr rfl))
    simpa [hasLabel] using hlabel
  simp [enter, hfree]

theorem ensure_eq_of_apart {e : AssemblyError}
    (hwalk : s.locations.ensure implicit e = .ok (name, l)) (h : s.Apart l) :
    s.ensure implicit e = .ok (name, { s with locations := l }) := by
  unfold ensure
  cases hcurrent : s.locations.current with
  | some current =>
    simp only [Locations.ensure, hcurrent, Except.ok.injEq, Prod.mk.injEq] at hwalk
    obtain ⟨rfl, rfl⟩ := hwalk
    rfl
  | none =>
    cases implicit with
    | none => simp [Locations.ensure, hcurrent] at hwalk
    | some name =>
      simp only [Locations.ensure, hcurrent, Except.ok.injEq, Prod.mk.injEq] at hwalk
      obtain ⟨rfl, rfl⟩ := hwalk
      simp [enter_eq_of_apart h, Except.map]

theorem add_eq_of_apart {n : Nat} (hwalk : s.locations.put implicit n = .ok l) (h : s.Apart l) :
    s.add implicit (.ok n) = .ok { s with locations := l } := by
  obtain ⟨⟨sectionName, l₁⟩, hensure, hadvance⟩ := bind_eq_ok.mp hwalk
  have h₁ : s.Apart l₁ := fun name hname => Locations.names_advance hadvance ▸ h name hname
  refine bind_eq_ok.mpr ⟨_, ensure_eq_of_apart hensure h₁, ?_⟩
  exact bind_eq_ok.mpr ⟨n, rfl, bind_eq_ok.mpr ⟨l, hadvance, rfl⟩⟩

theorem statement_eq_of_apart {st : Statement}
    (hwalk : s.locations.followStatement implicit st = .ok l) (h : s.Apart l) :
    s.statement implicit st = .ok { s with locations := l } := by
  cases st with
  | global names | external names | finish =>
    cases hwalk
    rfl
  | openSection name =>
    cases hwalk
    exact enter_eq_of_apart h
  | words values | operation op => exact add_eq_of_apart hwalk h
  | skip n =>
    obtain ⟨bytes, hbytes, hput⟩ := bind_eq_ok.mp hwalk
    rw [statement, hbytes]
    exact add_eq_of_apart hput h

theorem define_eq_of_apart {sectionName : String}
    (hwalk : s.locations.ensure implicit (.labelOutsideSection name) = .ok (sectionName, l))
    (h : s.Apart l) (hfresh : name ∉ s.labels.map (·.name)) (hfree : name ∉ l.names) :
    s.define implicit name =
      .ok ⟨l, s.labels ++ [⟨name, sectionName, l.counter sectionName⟩]⟩ := by
  have hlabel : s.hasLabel name = false := by
    rw [Bool.eq_false_iff]
    intro hlabel
    exact hfresh (by simpa [hasLabel] using hlabel)
  have hopened : l.isOpened name = false :=
    Bool.eq_false_iff.mpr (mt Locations.isOpened_iff.mp hfree)
  refine bind_eq_ok.mpr ⟨_, ensure_eq_of_apart hwalk h, ?_⟩
  have hlabel' : hasLabel ⟨l, s.labels⟩ name = false := hlabel
  simp only [hlabel', hopened, Bool.or_self, Bool.false_eq_true, if_false]
  rfl

/-- A line that can be walked over is surveyed if its label is new and labels stay apart from
sections. -/
theorem exists_line {line : Line} (hwalk : s.locations.followLine implicit line = .ok l)
    (hold : s.Apart l) (hnew : ∀ name, line.label = some name →
      name ∉ s.labels.map (·.name) ∧ name ∉ l.names) :
    ∃ s', s.line implicit line = .ok s' := by
  obtain ⟨l₁, hlabel, hstatement⟩ := bind_eq_ok.mp hwalk
  have hgrows : l₁.names ⊆ l.names := by
    intro other hother
    cases hs : line.statement with
    | none =>
      rw [hs] at hstatement
      cases hstatement
      exact hother
    | some st =>
      rw [hs] at hstatement
      rw [(Locations.names_followStatement hs hstatement).2]
      exact mem_mention.mpr (.inl hother)
  cases hl : line.label with
  | none =>
    rw [hl] at hlabel
    cases hlabel
    cases hs : line.statement with
    | none => exact ⟨s, by rw [Survey.line, hl, hs]; rfl⟩
    | some st =>
      rw [hs] at hstatement
      exact ⟨_, by rw [Survey.line, hl, hs]; exact statement_eq_of_apart hstatement hold⟩
  | some name =>
    rw [hl] at hlabel
    obtain ⟨⟨sectionName, entered⟩, hensure, rfl⟩ := map_eq_ok.mp hlabel
    obtain ⟨hfresh, hfree⟩ := hnew name hl
    have hapart : s.Apart entered := fun other hother hmem => hold other hother (hgrows hmem)
    have hdefine := define_eq_of_apart hensure hapart hfresh (fun hmem => hfree (hgrows hmem))
    cases hs : line.statement with
    | none =>
      rw [Survey.line, hl, hs]
      exact exists_bind_eq_ok.mpr ⟨_, hdefine, _, rfl⟩
    | some st =>
      rw [hs] at hstatement
      -- The label is one more that the section of the statement has to stay apart from.
      have hall : (⟨entered, s.labels ++ [⟨name, sectionName, entered.counter sectionName⟩]⟩ :
          Survey).Apart l := by
        intro other hother
        rw [List.map_append, List.mem_append] at hother
        rcases hother with hother | hother
        · exact hold other hother
        · obtain rfl : other = name := by simpa using hother
          exact hfree
      rw [Survey.line, hl, hs]
      exact exists_bind_eq_ok.mpr ⟨_, hdefine, _, statement_eq_of_apart hstatement hall⟩

theorem labels_line {line : Line} (hs : s.locations.Sound) (h : s.line implicit line = .ok s') :
    s'.labels.map (·.name) = s.labels.map (·.name) ++ line.label.toList := by
  rw [(followLine_of_line hs h).2, List.map_append]
  cases hl : line.label with
  | none => simp [labelAt, hl]
  | some name =>
    obtain ⟨sectionName, hsection⟩ := exists_section_of_line hs h hl
    simp [labelAt, hl, hsection]

theorem labels_lines (hs : s.locations.Sound) (h : s.lines implicit program = .ok s') :
    s'.labels.map (·.name) = s.labels.map (·.name) ++ program.labels := by
  induction program generalizing s with
  | nil =>
    cases h
    simp [Program.labels]
  | cons n rest ih =>
    obtain ⟨s₁, hline, hrest⟩ := lines_cons.mp h
    have hs₁ := hs.followLine (followLine_of_line hs hline).1
    rw [ih hs₁ hrest, labels_line hs hline, Program.labels_cons, List.append_assoc]

/-- A survey succeeds exactly if the walk does, no label is defined twice and none bears the name of
a section. -/
theorem exists_lines_iff (hs : s.Sound) : (∃ s', s.lines implicit program = .ok s') ↔
    ∃ l, s.locations.follow implicit program = .ok l ∧
      (s.labels.map (·.name) ++ program.labels).Nodup ∧
        ∀ name ∈ s.labels.map (·.name) ++ program.labels, name ∉ l.names := by
  constructor
  · rintro ⟨s', h⟩
    have hs' := hs.lines h
    rw [← labels_lines hs.locations h]
    refine ⟨s'.locations, (follow_of_lines hs.locations h).1, hs'.nodup, ?_⟩
    intro name hname
    obtain ⟨label, hlabel, rfl⟩ := List.mem_map.mp hname
    exact hs'.apart label hlabel
  · rintro ⟨l, hwalk, hnodup, hapart⟩
    induction program generalizing s with
    | nil => exact ⟨s, rfl⟩
    | cons n rest ih =>
      obtain ⟨l₁, hline, hwalk⟩ := bind_eq_ok.mp hwalk
      rw [Program.labels_cons, ← List.append_assoc] at hnodup hapart
      -- Sections that are open behind the line stay open.
      have hfirst : ∀ name ∈ s.labels.map (·.name) ++ n.line.label.toList, name ∉ l₁.names := by
        intro name hname hmem
        exact hapart name (List.mem_append_left _ hname)
          ((Locations.mem_names_follow hwalk).mpr (.inl hmem))
      have hnew : ∀ name, n.line.label = some name →
          name ∉ s.labels.map (·.name) ∧ name ∉ l₁.names := by
        intro name hname
        have hmem : name ∈ n.line.label.toList := Option.mem_toList.mpr hname
        refine ⟨?_, hfirst name (List.mem_append_right _ hmem)⟩
        intro hold
        exact (List.nodup_append.mp (List.nodup_append.mp hnodup).1).2.2 name hold name hmem rfl
      obtain ⟨s₁, hs₁⟩ := exists_line hline
        (fun name hname => hfirst name (List.mem_append_left _ hname)) hnew
      have hlocations : s₁.locations = l₁ :=
        Except.ok.inj ((followLine_of_line hs.locations hs₁).1.symm.trans hline)
      rw [← labels_line hs.locations hs₁] at hnodup hapart
      obtain ⟨s', hs'⟩ := ih (hs.line hs₁) (hlocations ▸ hwalk) hnodup hapart
      exact ⟨s', lines_cons.mpr ⟨s₁, hs₁, hs'⟩⟩

end Survey

end Toolchain32
