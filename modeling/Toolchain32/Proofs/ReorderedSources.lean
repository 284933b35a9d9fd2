import Mathlib.Data.Set.List
import Toolchain32.Proofs.AlikePrograms

/-!
# Reordered sources

Linkage directives may stand anywhere before the end of a program, and neighbouring chunks of
different sections may be exchanged. Such a `Reordering` of the lines of a source leads to an alike
program, so that it changes neither whether the source is assembled nor what it is assembled to
(`assemble_reordered`).
-/

namespace Toolchain32

open Fallible

namespace Program

variable {before rest : List (Except SyntaxError Line)}

theorem uptoEnd_append_of_ends (h : ∃ r ∈ before, endsProgram r = true) :
    uptoEnd (before ++ rest) = uptoEnd before := by
  induction before with
  | nil => simp at h
  | cons r before ih =>
    rw [List.cons_append, uptoEnd, uptoEnd]
    by_cases hr : endsProgram r = true
    · rw [if_pos hr, if_pos hr]
    · rw [if_neg hr, if_neg hr, ih]
      obtain ⟨r', hr', hend⟩ := h
      rcases List.mem_cons.mp hr' with rfl | hr'
      · exact absurd hend hr
      · exact ⟨r', hr', hend⟩

theorem uptoEnd_append (h : ∀ r ∈ before, endsProgram r = false) :
    uptoEnd (before ++ rest) = before ++ uptoEnd rest := by
  induction before with
  | nil => rfl
  | cons r before ih =>
    rw [List.forall_mem_cons] at h
    rw [List.cons_append, uptoEnd, if_neg (Bool.eq_false_iff.mp h.1), ih h.2, List.cons_append]

theorem head?_uptoEnd (readings : List (Except SyntaxError Line)) :
    (uptoEnd readings).head? = readings.head? := by
  cases readings with
  | nil => rfl
  | cons r rest =>
    rw [uptoEnd]
    split <;> rfl

end Program

def sectionLine (name : String) : Line := ⟨none, some (.openSection name)⟩

def Line.isLoose : Line → Bool
  | ⟨none, some (.global _)⟩ | ⟨none, some (.external _)⟩ => true
  | _ => false

/-- The line may stand anywhere before the end of the program. One that cannot be read is an error
at any place. -/
def isLoose : Except SyntaxError Line → Bool
  | .ok line => line.isLoose
  | .error _ => true

/-- The lines go on with the section that is open: none opens another one or ends the program. -/
def StaysInSection (body : List (Except SyntaxError Line)) : Prop :=
  ∀ line, .ok line ∈ body → line.opened? = none ∧ line.statement ≠ some .finish

def BeginsSection (readings : List (Except SyntaxError Line)) : Prop :=
  ∀ r ∈ readings.head?, ∃ name, r = .ok (sectionLine name)

inductive Reordering : List (Except SyntaxError Line) → List (Except SyntaxError Line) → Prop
  /-- Loose lines before the end of the program are moved; the other lines keep their order. -/
  | directives (before after rest : List (Except SyntaxError Line))
    (noEnd : ∀ r ∈ before, Program.endsProgram r = false) (moved : before.Perm after)
    (kept : before.filter (!isLoose ·) = after.filter (!isLoose ·)) :
    Reordering (before ++ rest) (after ++ rest)
  /-- Neighbouring chunks of different sections are exchanged. -/
  | chunks (before : List (Except SyntaxError Line)) (name name' : String)
    (body body' rest : List (Except SyntaxError Line)) (differ : name ≠ name')
    (stays : StaysInSection body) (stays' : StaysInSection body') (closed : BeginsSection rest) :
    Reordering (before ++ (.ok (sectionLine name) :: body ++
        (.ok (sectionLine name') :: body' ++ rest)))
      (before ++ (.ok (sectionLine name') :: body' ++ (.ok (sectionLine name) :: body ++ rest)))

theorem Reordering.symm {readings readings' : List (Except SyntaxError Line)}
    (h : Reordering readings readings') : Reordering readings' readings := by
  cases h with
  | directives before after rest noEnd moved kept =>
    exact .directives after before rest (fun r hr => noEnd r (moved.mem_iff.mpr hr)) moved.symm
      kept.symm
  | chunks before name name' body body' rest differ stays stays' closed =>
    exact .chunks before name' name body' body rest differ.symm stays' stays closed

section

variable {key current : Option String} {name name' : String} {body body' rest : List Line}

theorem Line.of_isLoose {line : Line} (h : line.isLoose = true) :
    line.needsSection = false ∧ line.opened? = none := by
  unfold isLoose at h
  split at h
  · exact ⟨rfl, rfl⟩
  · exact ⟨rfl, rfl⟩
  · cases h

theorem sectionLines_sectionLine (name : String) (lines : List Line) :
    sectionLines key current (sectionLine name :: lines) = sectionLines key (some name) lines := by
  rw [sectionLines, if_neg fun h => Bool.false_ne_true h.2]
  rfl

theorem sectionLines_exchange (differ : name ≠ name') (stays : ∀ line ∈ body, line.opened? = none)
    (stays' : ∀ line ∈ body', line.opened? = none)
    (closed : ∀ current current', sectionLines key current rest = sectionLines key current' rest) :
    sectionLines key current (sectionLine name :: body ++ (sectionLine name' :: body' ++ rest)) =
      sectionLines key current
        (sectionLine name' :: body' ++ (sectionLine name :: body ++ rest)) := by
  simp only [List.cons_append, sectionLines_sectionLine, sectionLines_append stays,
    sectionLines_append stays']
  rw [closed (some name') (some name)]
  -- Only one of the chunks can be of the section.
  by_cases hname : some name = key
  · have hname' : some name' ≠ key := by
      rintro rfl
      exact differ (Option.some.inj hname)
    rw [sectionLines_eq_nil stays' hname', List.nil_append, List.nil_append]
  · rw [sectionLines_eq_nil stays hname, List.nil_append, List.nil_append]

end

theorem ok_injective : Function.Injective (Except.ok : Line → Except SyntaxError Line) :=
  fun _ _ => Except.ok.inj

theorem exists_map_ok {lines : List Line} {readings : List (Except SyntaxError Line)}
    (h : (lines.map .ok).Perm readings) :
    ∃ lines', lines'.map .ok = readings ∧ lines.Perm lines' := by
  have hreadings : readings ∈ Set.range (List.map .ok) := by
    rw [Set.range_list_map]
    intro r hr
    obtain ⟨line, -, hline⟩ := List.mem_map.mp (h.mem_iff.mpr hr)
    exact ⟨line, hline⟩
  obtain ⟨lines', rfl⟩ := hreadings
  exact ⟨lines', rfl, (List.map_perm_map_iff ok_injective).mp h⟩

theorem StaysInSection.of_map {lines : List Line} (h : StaysInSection (lines.map .ok)) :
    ∀ line ∈ lines, line.opened? = none :=
  fun line hline => (h line (List.mem_map_of_mem hline)).1

theorem StaysInSection.noEnd {body : List (Except SyntaxError Line)} (h : StaysInSection body)
    (name : String) : ∀ r ∈ .ok (sectionLine name) :: body, Program.endsProgram r = false := by
  intro r hr
  rcases List.mem_cons.mp hr with rfl | hr
  · rfl
  · cases r with
    | error e => rfl
    | ok line => exact decide_eq_false (h line hr).2

theorem BeginsSection.of_map {lines : List Line} (h : BeginsSection (lines.map .ok))
    (key current current' : Option String) :
    sectionLines key current lines = sectionLines key current' lines := by
  cases lines with
  | nil => rfl
  | cons line lines =>
    obtain ⟨name, hline⟩ := h (.ok line) rfl
    rw [Except.ok.inj hline, sectionLines_sectionLine, sectionLines_sectionLine]

theorem LinesAlike.of_directives {before after : List Line} (moved : before.Perm after)
    (kept : before.filter (!·.isLoose) = after.filter (!·.isLoose)) (rest : List Line) :
    LinesAlike (before ++ rest) (after ++ rest) where
  perm := moved.append_right rest
  sections key current := by
    have hloose (line : Line) (h : (!line.isLoose) = false) :
        line.needsSection = false ∧ line.opened? = none :=
      Line.of_isLoose (by simpa using h)
    rw [← sectionLines_filter hloose, List.filter_append, kept, ← List.filter_append,
      sectionLines_filter hloose]

theorem LinesAlike.of_chunks {name name' : String} {body body' rest : List Line}
    (differ : name ≠ name') (stays : ∀ line ∈ body, line.opened? = none)
    (stays' : ∀ line ∈ body', line.opened? = none)
    (closed : ∀ key current current',
      sectionLines key current rest = sectionLines key current' rest) (before : List Line) :
    LinesAlike (before ++ (sectionLine name :: body ++ (sectionLine name' :: body' ++ rest)))
      (before ++ (sectionLine name' :: body' ++ (sectionLine name :: body ++ rest))) where
  perm := (List.perm_append_comm_assoc ..).append_left before
  sections key _ :=
    sectionLines_append_congr (fun _ => sectionLines_exchange differ stays stays' (closed key))
      before

theorem Reordering.linesAlike {readings readings' : List (Except SyntaxError Line)}
    (h : Reordering readings readings') {lines : List Line}
    (hlines : Program.uptoEnd readings = lines.map .ok) :
    ∃ lines', Program.uptoEnd readings' = lines'.map .ok ∧ LinesAlike lines lines' := by
  cases h with
  | directives before after rest noEnd moved kept =>
    rw [Program.uptoEnd_append noEnd] at hlines
    rw [Program.uptoEnd_append fun r hr => noEnd r (moved.mem_iff.mpr hr)]
    obtain ⟨b, t, rfl, rfl, hrest⟩ := List.map_eq_append_iff.mp hlines.symm
    obtain ⟨a, rfl, hmoved⟩ := exists_map_ok moved
    have hkept : b.filter (!·.isLoose) = a.filter (!·.isLoose) := by
      rw [List.filter_map, List.filter_map] at kept
      exact ok_injective.list_map kept
    exact ⟨a ++ t, by rw [List.map_append, hrest], .of_directives hmoved hkept t⟩
  | chunks before name name' body body' rest differ stays stays' closed =>
    by_cases hend : ∃ r ∈ before, Program.endsProgram r = true
    · rw [Program.uptoEnd_append_of_ends hend] at hlines ⊢
      exact ⟨lines, hlines, .refl lines⟩
    · have hnoEnd : ∀ r ∈ before, Program.endsProgram r = false := by simpa using hend
      rw [Program.uptoEnd_append hnoEnd, Program.uptoEnd_append (stays.noEnd name),
        Program.uptoEnd_append (stays'.noEnd name')] at hlines
      rw [Program.uptoEnd_append hnoEnd, Program.uptoEnd_append (stays'.noEnd name'),
        Program.uptoEnd_append (stays.noEnd name)]
      obtain ⟨b, more, rfl, rfl, hmore⟩ := List.map_eq_append_iff.mp hlines.symm
      obtain ⟨first, more, rfl, hfirst, hmore⟩ := List.map_eq_append_iff.mp hmore
      obtain ⟨second, t, rfl, hsecond, hrest⟩ := List.map_eq_append_iff.mp hmore
      obtain ⟨_, c, rfl, hsection, rfl⟩ := List.map_eq_cons_iff.mp hfirst
      obtain ⟨_, c', rfl, hsection', rfl⟩ := List.map_eq_cons_iff.mp hsecond
      obtain rfl := Except.ok.inj hsection
      obtain rfl := Except.ok.inj hsection'
      rw [BeginsSection, ← Program.head?_uptoEnd, ← hrest] at closed
      refine ⟨_, ?_, .of_chunks differ stays.of_map stays'.of_map (BeginsSection.of_map closed) b⟩
      simp [hrest]

/-- Whatever a source is read as, a reordered source is read as an alike program. -/
theorem Program.exists_read_reordered {source source' : String}
    (h : Reordering (readings source) (readings source')) {program : Program}
    (hread : read source = .ok program) :
    ∃ program', read source' = .ok program' ∧
      LinesAlike (program.map (·.line)) (program'.map (·.line)) := by
  obtain ⟨lines', hlines', halike⟩ :=
    h.linesAlike ((exists_readLines_iff 1 _ _).mp ⟨program, hread, rfl⟩)
  obtain ⟨program', hread', rfl⟩ := (exists_readLines_iff 1 _ _).mpr hlines'
  exact ⟨program', hread', halike⟩

theorem exists_assemble_of_reordering {options : AssemblyOptions} {source source' : String}
    (h : Reordering (Program.readings source) (Program.readings source'))
    (hassemble : ∃ a, assemble options source = .ok a) :
    ∃ a', assemble options source' = .ok a' := by
  rw [exists_assembled_source_iff] at hassemble ⊢
  obtain ⟨program, hread, hacceptable⟩ := hassemble
  obtain ⟨program', hread', halike⟩ := Program.exists_read_reordered h hread
  exact ⟨program', hread', halike.acceptable hacceptable⟩

/-- A reordered source is assembled exactly if the source is, and then to the same object apart
from ids and the order of its tables. -/
theorem assemble_reordered (options : AssemblyOptions) {source source' : String}
    (h : Reordering (Program.readings source) (Program.readings source')) :
    ((∃ a, assemble options source = .ok a) ↔ ∃ a', assemble options source' = .ok a') ∧
      ∀ a a', assemble options source = .ok a → assemble options source' = .ok a' →
        a.object.SameByName a'.object := by
  constructor
  · exact ⟨exists_assemble_of_reordering h, exists_assemble_of_reordering h.symm⟩
  · intro a a' ha ha'
    obtain ⟨program, hread, hprogram⟩ := bind_eq_ok.mp ha
    obtain ⟨program', hread', hprogram'⟩ := bind_eq_ok.mp ha'
    obtain ⟨other, hother, halike⟩ := Program.exists_read_reordered h hread
    obtain rfl := Except.ok.inj (hother.symm.trans hread')
    obtain ⟨p, rfl⟩ := Program.assemble_eq_ok hprogram
    obtain ⟨p', rfl⟩ := Program.assemble_eq_ok hprogram'
    exact halike.sameByName p p'

/-- A directive is moved to the begin, and then the chunks behind it are exchanged. -/
theorem assemble_reordered_twoSections :
    ∃ a a' a'',
      assemble {} ".section a\nf: .word g\n.section d\ng: .skip 5\n.global f" = .ok a ∧
      assemble {} ".global f\n.section a\nf: .word g\n.section d\ng: .skip 5" = .ok a' ∧
      assemble {} ".global f\n.section d\ng: .skip 5\n.section a\nf: .word g" = .ok a'' ∧
      a.object.SameByName a'.object ∧ a'.object.SameByName a''.object := by
  have moved := Reordering.directives
    (Program.readings ".section a\nf: .word g\n.section d\ng: .skip 5\n.global f")
    (Program.readings ".global f\n.section a\nf: .word g\n.section d\ng: .skip 5") []
    (by decide +kernel) (by decide +kernel) (by decide +kernel)
  rw [List.append_nil, List.append_nil] at moved
  have hreadings :
      Program.readings ".global f\n.section a\nf: .word g\n.section d\ng: .skip 5" =
        [.ok ⟨none, some (.global ["f"])⟩,
          .ok (sectionLine "a"), .ok ⟨some "f", some (.words [.symbol "g"])⟩,
          .ok (sectionLine "d"), .ok ⟨some "g", some (.skip 5)⟩] := by
    decide +kernel
  have hreadings' :
      Program.readings ".global f\n.section d\ng: .skip 5\n.section a\nf: .word g" =
        [.ok ⟨none, some (.global ["f"])⟩,
          .ok (sectionLine "d"), .ok ⟨some "g", some (.skip 5)⟩,
          .ok (sectionLine "a"), .ok ⟨some "f", some (.words [.symbol "g"])⟩] := by
    decide +kernel
  have exchanged : Reordering
      (Program.readings ".global f\n.section a\nf: .word g\n.section d\ng: .skip 5")
      (Program.readings ".global f\n.section d\ng: .skip 5\n.section a\nf: .word g") := by
    rw [hreadings, hreadings']
    exact .chunks [_] "a" "d" [_] [_] [] (by decide) (by simp [StaysInSection, Line.opened?])
      (by simp [StaysInSection, Line.opened?]) nofun
  obtain ⟨a, ha⟩ : ∃ a, assemble {} ".section a\nf: .word g\n.section d\ng: .skip 5\n.global f" =
      .ok a := ⟨_, eq_ok_get (by decide +kernel)⟩
  obtain ⟨a', ha'⟩ := (assemble_reordered {} moved).1.mp ⟨a, ha⟩
  obtain ⟨a'', ha''⟩ := (assemble_reordered {} exchanged).1.mp ⟨a', ha'⟩
  exact ⟨a, a', a'', ha, ha', ha'', (assemble_reordered {} moved).2 a a' ha ha',
    (assemble_reordered {} exchanged).2 a' a'' ha' ha''⟩

end Toolchain32
