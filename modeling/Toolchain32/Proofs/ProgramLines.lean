import Toolchain32.Assembly.Program
import Toolchain32.Proofs.LegalLines
import Toolchain32.Proofs.StrippedTexts

/-!
# The lines of a program

`Program.IsReadOf` says which lines of a source are its program: all those up to the first end
directive, numbered from one on. The lines that are read are legal. `Program.lastOpened` is the
section that the directives of some lines leave open, and `Program.openedNames` are all sections
that a program opens.
-/

namespace Toolchain32

open Fallible

namespace Text

/-- A text and its lines. A line ends at a line feed, or at a carriage return with a line feed, and
the last one may also end with the text. -/
inductive HasLines : List Char → List (List Char) → Prop
  | nil : HasLines [] []
  | last (l : List Char) (nonempty : l ≠ []) (single : '\n' ∉ l) : HasLines l [l]
  | feed (l more : List Char) (texts : List (List Char)) (single : '\n' ∉ l)
      (plain : l.getLast? ≠ some '\r') (rest : HasLines more texts) :
      HasLines (l ++ '\n' :: more) (l :: texts)
  | returnFeed (l more : List Char) (texts : List (List Char)) (single : '\n' ∉ l)
      (rest : HasLines more texts) : HasLines (l ++ '\r' :: '\n' :: more) (l :: texts)

theorem lines_append_feed {l : List Char} (h : '\n' ∉ l) (more : List Char) :
    lines (l ++ '\n' :: more) = dropReturn l :: lines more := by
  rw [lines, separate_append_cons h]
  rfl

theorem lines_of_single {l : List Char} (hl : l ≠ []) (h : '\n' ∉ l) : lines l = [l] := by
  rw [lines, separate_of_not_mem h, linesOfPieces, if_neg (by simpa using hl)]

/-- The lines of a text are found, and it has no others. -/
theorem hasLines_iff {s : List Char} {texts : List (List Char)} :
    HasLines s texts ↔ lines s = texts := by
  constructor
  · intro h
    induction h with
    | nil => rfl
    | last l nonempty single => exact lines_of_single nonempty single
    | feed l more texts single plain _ ih =>
      rw [lines_append_feed single, dropReturn, if_neg plain, ih]
    | returnFeed l more texts single _ ih =>
      have hsingle : '\n' ∉ l ++ ['\r'] := by simp [single]
      rw [List.append_cons, lines_append_feed hsingle, dropReturn, ih]
      simp
  · rintro rfl
    induction s using separate_induction '\n' with
    | last l single =>
      by_cases hl : l = []
      · subst hl
        exact .nil
      · rw [lines_of_single hl single]
        exact .last l hl single
    | piece l more single ih =>
      rw [lines_append_feed single, dropReturn]
      split
      · rename_i hreturn
        obtain ⟨l, rfl⟩ := List.getLast?_eq_some_iff.mp hreturn
        rw [List.dropLast_concat, List.append_assoc]
        exact .returnFeed l more _ (fun h => single (List.mem_append_left _ h)) ih
      · exact .feed l more _ single ‹_› ih

end Text

def Line.opened? (l : Line) : Option String :=
  match l.statement with
  | some (.openSection name) => some name
  | _ => none

theorem Line.opened?_eq_some {l : Line} {name : String} :
    l.opened? = some name ↔ l.statement = some (.openSection name) := by
  unfold opened?
  split <;> simp_all

def Statement.hasContent : Statement → Bool
  | .words _ | .skip _ | .operation _ => true
  | .global _ | .external _ | .openSection _ | .finish => false

def Line.needsSection (l : Line) : Bool := l.label.isSome || l.statement.any Statement.hasContent

namespace Program

def readings (source : String) : List (Except SyntaxError Line) :=
  (Text.lines source.toList).map Line.readChars

def endsProgram : Except SyntaxError Line → Bool
  | .ok line => line.statement = some .finish
  | .error _ => false

def uptoEnd : List (Except SyntaxError Line) → List (Except SyntaxError Line)
  | [] => []
  | r :: rest => if endsProgram r then [r] else r :: uptoEnd rest

/-- A program is read exactly if every line up to its end can be. -/
theorem exists_readLines_iff (number : Nat) (raws : List (List Char)) (lines : List Line) :
    (∃ program, readLines number raws = .ok program ∧ program.map (·.line) = lines) ↔
      uptoEnd (raws.map Line.readChars) = lines.map .ok := by
  induction raws generalizing number lines with
  | nil => cases lines <;> simp [readLines, uptoEnd]
  | cons raw raws ih =>
    rw [readLines, List.map_cons, uptoEnd]
    cases hline : Line.readChars raw with
    | error e => cases lines <;> simp [endsProgram]
    | ok line =>
      by_cases hend : line.statement = some .finish
      · cases lines <;> simp [endsProgram, hend]
      · cases lines with
        | nil => simp [endsProgram, hend, map_eq_ok]
        | cons first more =>
          have hmore := ih (number + 1) more
          simp only [endsProgram, hend, if_false, decide_false, Bool.false_eq_true, map_eq_ok,
            List.map_cons, List.cons.injEq, Except.ok.injEq, ← hmore]
          constructor
          · rintro ⟨_, ⟨program, hread, rfl⟩, hlines⟩
            obtain ⟨hfirst, hrest⟩ := List.cons.inj hlines
            exact ⟨hfirst, program, hread, hrest⟩
          · rintro ⟨hfirst, program, hread, hrest⟩
            exact ⟨_, ⟨program, hread, rfl⟩, List.cons_eq_cons.mpr ⟨hfirst, hrest⟩⟩

/-- The numbered lines of a source up to and including its first end directive, all of which can be
read. -/
structure IsReadOf (program : Program) (source : String) : Prop where
  numbers : program.map (·.number) = List.range' 1 program.length
  lines : ∃ texts, Text.HasLines source.toList texts ∧
    uptoEnd (texts.map Line.readChars) = program.map fun n => .ok n.line

def lastOpened : Program → Option String
  | [] => none
  | n :: rest => (lastOpened rest).or n.line.opened?

def needsImplicit : Program → Bool
  | [] => false
  | n :: rest => n.line.needsSection || (n.line.opened?.isNone && needsImplicit rest)

/-- The sections that are opened: those that directives name, and the implicit one if there is need
of it. -/
def openedNames (implicit : Option String) (program : Program) : List String :=
  (if program.needsImplicit then implicit.toList else []) ++ program.filterMap (·.line.opened?)

variable {program before after : Program} {n : NumberedLine} {number : Nat}
  {raws : List (List Char)}

theorem of_mem_openedNames {implicit : Option String} {name : String}
    (h : name ∈ program.openedNames implicit) :
    implicit = some name ∨ ∃ n ∈ program, n.line.statement = some (.openSection name) := by
  rcases List.mem_append.mp h with h | h
  · split at h
    · exact .inl (Option.mem_toList.mp h)
    · cases h
  · obtain ⟨n, hn, hopened⟩ := List.mem_filterMap.mp h
    exact .inr ⟨n, hn, Line.opened?_eq_some.mp hopened⟩

theorem readLines_cons {raw : List Char} (h : readLines number (raw :: raws) = .ok program) :
    ∃ line rest, Line.readChars raw = .ok line ∧ program = ⟨number, line⟩ :: rest ∧
      (rest = [] ∨ readLines (number + 1) raws = .ok rest) := by
  rw [readLines] at h
  cases hline : Line.readChars raw with
  | error e => simp [hline] at h
  | ok line =>
    simp only [hline] at h
    split at h
    · exact ⟨line, [], rfl, (Except.ok.inj h).symm, .inl rfl⟩
    · obtain ⟨rest, hrest, rfl⟩ := map_eq_ok.mp h
      exact ⟨line, rest, rfl, rfl, .inr hrest⟩

theorem numbers_readLines (h : readLines number raws = .ok program) :
    program.map (·.number) = List.range' number program.length := by
  induction raws generalizing number program with
  | nil =>
    cases h
    rfl
  | cons raw raws ih =>
    obtain ⟨line, rest, -, rfl, rfl | hrest⟩ := readLines_cons h
    · rfl
    · rw [List.map_cons, ih hrest, List.length_cons, List.range'_succ]

theorem ext_lines {program' : Program} (hnumbers : program.map (·.number) = program'.map (·.number))
    (hlines : program.map (·.line) = program'.map (·.line)) : program = program' := by
  have hpair : ∀ n n' : NumberedLine, (n.number, n.line) = (n'.number, n'.line) → n = n' := by
    rintro ⟨_, _⟩ ⟨_, _⟩ h
    obtain ⟨rfl, rfl⟩ := Prod.mk.inj h
    rfl
  apply (List.map_inj_right hpair).mp
  rw [← List.zip_map', ← List.zip_map', hnumbers, hlines]

theorem read_eq_ok_iff {source : String} : read source = .ok program ↔ program.IsReadOf source := by
  have hmap : program.map (fun n => Except.ok (ε := SyntaxError) n.line) =
      (program.map (·.line)).map .ok := by rw [List.map_map]; rfl
  constructor
  · intro h
    refine ⟨numbers_readLines h, _, Text.hasLines_iff.mpr rfl, ?_⟩
    rw [hmap]
    exact (exists_readLines_iff 1 _ _).mp ⟨program, h, rfl⟩
  · rintro ⟨hnumbers, texts, htexts, hlines⟩
    obtain rfl := Text.hasLines_iff.mp htexts
    obtain ⟨program', h, hsame⟩ := (exists_readLines_iff 1 _ _).mpr (hlines.trans hmap)
    have hlength : program'.length = program.length := by
      simpa using congrArg List.length hsame
    obtain rfl : program' = program :=
      ext_lines (by rw [numbers_readLines h, hnumbers, hlength]) hsame
    exact h

theorem length_le_of_readLines (h : readLines number raws = .ok program) :
    program.length ≤ raws.length := by
  induction raws generalizing number program with
  | nil =>
    cases h
    exact Nat.le_refl 0
  | cons raw raws ih =>
    obtain ⟨line, rest, -, rfl, rfl | hrest⟩ := readLines_cons h
    · simp
    · simpa using ih hrest

theorem legal_readLines (h : readLines number raws = .ok program) :
    ∀ n ∈ program, n.line.Legal := by
  induction raws generalizing number program with
  | nil =>
    cases h
    rintro _ ⟨⟩
  | cons raw raws ih =>
    obtain ⟨line, rest, hline, rfl, hrest⟩ := readLines_cons h
    intro n hn
    rcases List.mem_cons.mp hn with rfl | hn
    · exact Line.legal_of_readChars hline
    · rcases hrest with rfl | hrest
      · cases hn
      · exact ih hrest n hn

/-- The lines before a line have smaller numbers, and the lines after it greater ones. -/
theorem numbers_of_append (h : (before ++ n :: after).map (·.number) =
    List.range' number (before ++ n :: after).length) :
    (∀ m ∈ before, m.number < n.number) ∧ ∀ m ∈ n :: after, n.number ≤ m.number := by
  have hsorted : ((before ++ n :: after).map (·.number)).Pairwise (· < ·) :=
    h ▸ List.pairwise_lt_range'
  rw [List.map_append, List.map_cons, List.pairwise_append, List.pairwise_cons] at hsorted
  obtain ⟨-, ⟨hafter, -⟩, hbefore⟩ := hsorted
  refine ⟨fun m hm => ?_, fun m hm => ?_⟩
  · exact hbefore _ (List.mem_map_of_mem hm) _ List.mem_cons_self
  · rcases List.mem_cons.mp hm with rfl | hm
    · exact Nat.le_refl _
    · exact Nat.le_of_lt (hafter _ (List.mem_map_of_mem hm))

end Program

end Toolchain32
