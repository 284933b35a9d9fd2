import Toolchain32.Assembly
import Toolchain32.Proofs.Fallible
import Toolchain32.Proofs.LocationCounters
import Toolchain32.Proofs.ProgramLines

/-!
# The walk over a program

The survey and the emission of a program both move location counters from line to line.
`Locations.follow` is the walk that they have in common: `Survey.follow_of_lines` and
`follow_of_emitLines` say that either of them takes it, whatever else it does. What is true of the
walk is proved here once for both: sound counters stay sound, two walks over one program that begin
with the same current section and the same counters end with the same, and what comes next belongs
to the section that was opened last.
-/

namespace Toolchain32

open Fallible

namespace Locations

def put (implicit : Option String) (l : Locations) (bytes : Nat) :
    Except AssemblyError Locations := do
  let (name, l) ← l.ensure implicit .contentOutsideSection
  l.advance name bytes

def followStatement (implicit : Option String) (l : Locations) :
    Statement → Except AssemblyError Locations
  | .global _ | .external _ | .finish => .ok l
  | .openSection name => .ok (l.enter name)
  | .words values => l.put implicit (4 * values.length)
  | .skip n => do l.put implicit (← skipBytes n)
  | .operation op => l.put implicit op.size

def followLabel (implicit : Option String) (l : Locations) :
    Option String → Except AssemblyError Locations
  | some name => (l.ensure implicit (.labelOutsideSection name)).map (·.2)
  | none => .ok l

def followLine (implicit : Option String) (l : Locations) (line : Line) :
    Except AssemblyError Locations := do
  let l ← l.followLabel implicit line.label
  match line.statement with
  | some statement => l.followStatement implicit statement
  | none => return l

def follow (implicit : Option String) : Locations → Program → Except AssemblyError Locations
  | l, [] => .ok l
  | l, n :: rest => do (← l.followLine implicit n.line).follow implicit rest

variable {implicit : Option String} {l l' m m' : Locations} {name other : String}
  {e : AssemblyError} {program : Program}

/-- The section that a label or some content belongs to: the current one, or else the implicit
one. -/
theorem ensure_eq_ok (hl : l.Sound) (h : l.ensure implicit e = .ok (name, l')) :
    l'.Sound ∧ l'.current = some name ∧ l.current.or implicit = some name ∧
      ∀ other, l'.counter other = l.counter other := by
  unfold ensure at h
  split at h
  · rename_i current hcurrent
    obtain ⟨rfl, rfl⟩ := Prod.mk.inj (Except.ok.inj h)
    exact ⟨hl, hcurrent, by rw [hcurrent]; rfl, fun _ => rfl⟩
  · rename_i hcurrent
    obtain ⟨rfl, rfl⟩ := Prod.mk.inj (Except.ok.inj h)
    exact ⟨hl.enter _, current_enter, by rw [hcurrent]; rfl, fun _ => counter_enter⟩
  · cases h

/-- Sound counters that agree, up to the order in which the sections were opened and to sections
that hold nothing yet. -/
structure InStep (l m : Locations) : Prop where
  left : l.Sound
  right : m.Sound
  current : l.current = m.current
  counter : ∀ name, l.counter name = m.counter name

namespace InStep

theorem refl (h : l.Sound) : InStep l l := ⟨h, h, rfl, fun _ => rfl⟩

theorem enter (h : InStep l m) (name : String) : InStep (l.enter name) (m.enter name) where
  left := h.left.enter name
  right := h.right.enter name
  current := by rw [current_enter, current_enter]
  counter other := by rw [counter_enter, counter_enter, h.counter]

theorem ensure {e' : AssemblyError} (h : InStep l m)
    (hl : l.ensure implicit e = .ok (name, l')) (hm : m.ensure implicit e' = .ok (other, m')) :
    name = other ∧ InStep l' m' := by
  obtain ⟨hsound, hcurrent, hname, hcounter⟩ := ensure_eq_ok h.left hl
  obtain ⟨hsound', hcurrent', hname', hcounter'⟩ := ensure_eq_ok h.right hm
  have heq : name = other := by
    rw [h.current, hname'] at hname
    exact (Option.some.inj hname).symm
  exact ⟨heq, hsound, hsound', by rw [hcurrent, hcurrent', heq],
    fun other => by rw [hcounter, hcounter', h.counter]⟩

theorem put {bytes : Nat} (h : InStep l m) (hl : l.put implicit bytes = .ok l')
    (hm : m.put implicit bytes = .ok m') : InStep l' m' := by
  obtain ⟨⟨name, l₁⟩, hl₁, hl⟩ := bind_eq_ok.mp hl
  obtain ⟨⟨other, m₁⟩, hm₁, hm⟩ := bind_eq_ok.mp hm
  obtain ⟨rfl, h₁⟩ := h.ensure hl₁ hm₁
  have hcurrent := (ensure_eq_ok h.left hl₁).2.1
  have hmeml := h₁.left.current name hcurrent
  have hmemm := h₁.right.current name (h₁.current ▸ hcurrent)
  refine ⟨h₁.left.advance hl hmeml, h₁.right.advance hm hmemm, ?_, fun other => ?_⟩
  · rw [current_advance hl, current_advance hm, h₁.current]
  · rw [counter_advance hl hmeml, counter_advance hm hmemm, h₁.counter]

theorem followLabel {label : Option String} (h : InStep l m)
    (hl : l.followLabel implicit label = .ok l') (hm : m.followLabel implicit label = .ok m') :
    InStep l' m' := by
  cases label with
  | none =>
    cases hl
    cases hm
    exact h
  | some name =>
    obtain ⟨⟨_, _⟩, hl₁, rfl⟩ := map_eq_ok.mp hl
    obtain ⟨⟨_, _⟩, hm₁, rfl⟩ := map_eq_ok.mp hm
    exact (h.ensure hl₁ hm₁).2

theorem followStatement {s : Statement} (h : InStep l m)
    (hl : l.followStatement implicit s = .ok l') (hm : m.followStatement implicit s = .ok m') :
    InStep l' m' := by
  cases s with
  | global names | external names | finish =>
    cases hl
    cases hm
    exact h
  | openSection name =>
    cases hl
    cases hm
    exact h.enter name
  | words values | operation op => exact h.put hl hm
  | skip n =>
    obtain ⟨bytes, hbytes, hl⟩ := bind_eq_ok.mp hl
    obtain ⟨bytes', hbytes', hm⟩ := bind_eq_ok.mp hm
    have heq : bytes = bytes' := Except.ok.inj (hbytes.symm.trans hbytes')
    exact h.put hl (heq ▸ hm)

theorem followLine {line : Line} (h : InStep l m) (hl : l.followLine implicit line = .ok l')
    (hm : m.followLine implicit line = .ok m') : InStep l' m' := by
  obtain ⟨l₁, hl₁, hl⟩ := bind_eq_ok.mp hl
  obtain ⟨m₁, hm₁, hm⟩ := bind_eq_ok.mp hm
  have h₁ := h.followLabel hl₁ hm₁
  cases hs : line.statement with
  | none =>
    rw [hs] at hl hm
    cases hl
    cases hm
    exact h₁
  | some s =>
    rw [hs] at hl hm
    exact h₁.followStatement hl hm

/-- Two walks over one program that begin in step end in step. -/
theorem follow (h : InStep l m) (hl : l.follow implicit program = .ok l')
    (hm : m.follow implicit program = .ok m') : InStep l' m' := by
  induction program generalizing l m with
  | nil =>
    cases hl
    cases hm
    exact h
  | cons n rest ih =>
    obtain ⟨l₁, hl₁, hl⟩ := bind_eq_ok.mp hl
    obtain ⟨m₁, hm₁, hm⟩ := bind_eq_ok.mp hm
    exact ih (h.followLine hl₁ hm₁) hl hm

end InStep

namespace Sound

theorem followLine {line : Line} (h : l.Sound) (hl : l.followLine implicit line = .ok l') :
    l'.Sound := (InStep.followLine (.refl h) hl hl).left

end Sound

theorem section_followLabel {label : Option String} (hl : l.Sound)
    (h : l.followLabel implicit label = .ok l') :
    l'.Sound ∧ l'.current.or implicit = l.current.or implicit ∧
      ∀ name, l'.counter name = l.counter name := by
  cases label with
  | none =>
    cases h
    exact ⟨hl, rfl, fun _ => rfl⟩
  | some name =>
    obtain ⟨⟨sectionName, l₁⟩, hensure, heq⟩ := map_eq_ok.mp h
    cases heq
    obtain ⟨hl', hcurrent, hsection, hcounter⟩ := ensure_eq_ok hl hensure
    exact ⟨hl', by rw [hsection, hcurrent]; rfl, hcounter⟩

theorem section_put {bytes : Nat} (hl : l.Sound) (h : l.put implicit bytes = .ok l') :
    l'.current.or implicit = l.current.or implicit := by
  obtain ⟨⟨sectionName, l₁⟩, hensure, hadvance⟩ := bind_eq_ok.mp h
  obtain ⟨-, hcurrent, hsection, -⟩ := ensure_eq_ok hl hensure
  rw [hsection, current_advance hadvance, hcurrent]
  rfl

theorem section_followLine {line : Line} (hl : l.Sound)
    (h : l.followLine implicit line = .ok l') :
    l'.current.or implicit = line.opened?.or (l.current.or implicit) := by
  obtain ⟨l₁, hlabel, h⟩ := bind_eq_ok.mp h
  obtain ⟨hl₁, hsection, -⟩ := section_followLabel hl hlabel
  rw [← hsection]
  cases hs : line.statement with
  | none =>
    rw [hs] at h
    cases h
    simp [Line.opened?, hs]
  | some s =>
    rw [hs] at h
    cases s with
    | global names | external names | finish =>
      cases h
      simp [Line.opened?, hs]
    | openSection name =>
      cases h
      simp [Line.opened?, hs, current_enter]
    | words values | operation op =>
      rw [section_put hl₁ h]
      simp [Line.opened?, hs]
    | skip n =>
      obtain ⟨bytes, -, h⟩ := bind_eq_ok.mp h
      rw [section_put hl₁ h]
      simp [Line.opened?, hs]

theorem section_follow (hl : l.Sound) (h : l.follow implicit program = .ok l') :
    l'.current.or implicit = program.lastOpened.or (l.current.or implicit) := by
  induction program generalizing l with
  | nil =>
    cases h
    rfl
  | cons n rest ih =>
    obtain ⟨l₁, hline, hrest⟩ := bind_eq_ok.mp h
    rw [ih (hl.followLine hline) hrest, section_followLine hl hline, Program.lastOpened,
      Option.or_assoc]

def OpensImplicit (implicit : Option String) (l : Locations) (other : String) : Prop :=
  l.current = none ∧ implicit = some other

def openedHere (implicit : Option String) (l : Locations) (needed : Bool) : List String :=
  if l.current = none ∧ needed = true then implicit.toList else []

theorem names_ensure (h : l.ensure implicit e = .ok (name, l')) :
    l'.current = some name ∧ l'.names = mention l.names (l.openedHere implicit true) := by
  unfold ensure at h
  unfold openedHere
  split at h
  · rename_i hcurrent
    cases h
    simp [hcurrent, mention]
  · rename_i hcurrent
    cases h
    simp [hcurrent, mention, current_enter, names_enter]
  · cases h

theorem names_put {bytes : Nat} (h : l.put implicit bytes = .ok l') :
    l'.current ≠ none ∧ l'.names = mention l.names (l.openedHere implicit true) := by
  obtain ⟨⟨name, l₁⟩, hensure, hadvance⟩ := bind_eq_ok.mp h
  obtain ⟨hcurrent, hnames⟩ := names_ensure hensure
  rw [current_advance hadvance, hcurrent, names_advance hadvance]
  exact ⟨Option.some_ne_none name, hnames⟩

theorem names_followLabel {label : Option String} (h : l.followLabel implicit label = .ok l') :
    (l'.current = none ↔ l.current = none ∧ label = none) ∧
      l'.names = mention l.names (l.openedHere implicit label.isSome) := by
  cases label with
  | none =>
    cases h
    simp [openedHere, mention]
  | some name =>
    obtain ⟨⟨sectionName, l₁⟩, hensure, rfl⟩ := map_eq_ok.mp h
    obtain ⟨hcurrent, hnames⟩ := names_ensure hensure
    exact ⟨by simp [hcurrent], hnames⟩

theorem names_followStatement {line : Line} {s : Statement} (hs : line.statement = some s)
    (h : l.followStatement implicit s = .ok l') :
    (l'.current = none ↔ l.current = none ∧ s.hasContent = false ∧ line.opened? = none) ∧
      l'.names =
        mention l.names (l.openedHere implicit s.hasContent ++ line.opened?.toList) := by
  unfold Line.opened?
  rw [hs]
  cases s with
  | global names | external names | finish =>
    cases h
    simp [Statement.hasContent, openedHere, mention]
  | openSection name =>
    cases h
    simp [Statement.hasContent, openedHere, mention, current_enter, names_enter]
  | words values | operation op =>
    obtain ⟨hcurrent, hnames⟩ := names_put h
    simp [Statement.hasContent, hcurrent, hnames]
  | skip n =>
    obtain ⟨bytes, -, h⟩ := bind_eq_ok.mp h
    obtain ⟨hcurrent, hnames⟩ := names_put h
    simp [Statement.hasContent, hcurrent, hnames]

/-- A line may open the implicit section, and then the one that it names. -/
theorem names_followLine {line : Line} (h : l.followLine implicit line = .ok l') :
    (l'.current = none ↔
        l.current = none ∧ line.needsSection = false ∧ line.opened? = none) ∧
      l'.names =
        mention l.names (l.openedHere implicit line.needsSection ++ line.opened?.toList) := by
  obtain ⟨l₁, hlabel, h⟩ := bind_eq_ok.mp h
  obtain ⟨hcurrent, hnames⟩ := names_followLabel hlabel
  cases hs : line.statement with
  | none =>
    rw [hs] at h
    cases h
    rw [hcurrent, hnames]
    simp [Line.needsSection, Line.opened?, hs]
  | some s =>
    rw [hs] at h
    obtain ⟨hcurrent', hnames'⟩ := names_followStatement hs h
    have hneeds : line.needsSection = (line.label.isSome || s.hasContent) := by
      rw [Line.needsSection, hs]
      rfl
    rw [hcurrent', hnames', hnames, ← mention_append, hneeds]
    simp only [openedHere, hcurrent]
    cases line.label <;> cases s.hasContent <;> simp

/-- A walk opens the implicit section if none is current where it is needed, and the sections that
directives name. -/
theorem names_follow (h : l.follow implicit program = .ok l') :
    l'.names = mention l.names
      (l.openedHere implicit program.needsImplicit ++ program.filterMap (·.line.opened?)) := by
  induction program generalizing l with
  | nil =>
    cases h
    simp [Program.needsImplicit, openedHere, mention]
  | cons n rest ih =>
    obtain ⟨l₁, hline, hrest⟩ := bind_eq_ok.mp h
    obtain ⟨hcurrent, hnames⟩ := names_followLine hline
    have hopened : (n :: rest).filterMap (·.line.opened?) =
        n.line.opened?.toList ++ rest.filterMap (·.line.opened?) := by
      rw [List.filterMap_cons]
      cases n.line.opened? <;> rfl
    rw [ih hrest, hnames, ← mention_append, hopened, Program.needsImplicit]
    simp only [openedHere, hcurrent]
    cases n.line.needsSection <;> cases n.line.opened? <;> simp

theorem mem_names_follow (h : l.follow implicit program = .ok l') :
    other ∈ l'.names ↔ other ∈ l.names ∨
      program.needsImplicit = true ∧ l.OpensImplicit implicit other ∨
        other ∈ program.filterMap (·.line.opened?) := by
  rw [names_follow h, mem_mention, List.mem_append, openedHere, OpensImplicit]
  by_cases hneeds : program.needsImplicit <;> by_cases hcurrent : l.current = none <;>
    simp [hneeds, hcurrent]

/-- The sections stand in the order of their first opening. -/
theorem names_of_empty (h : empty.follow implicit program = .ok l') :
    l'.names = (program.openedNames implicit).eraseDups := by
  rw [names_follow h, mention_eq, Program.openedNames]
  simp [openedHere, empty, names]

theorem mem_names_of_empty (h : empty.follow implicit program = .ok l') :
    other ∈ l'.names ↔ other ∈ program.openedNames implicit := by
  rw [names_of_empty h, List.mem_eraseDups]

end Locations

end Toolchain32
