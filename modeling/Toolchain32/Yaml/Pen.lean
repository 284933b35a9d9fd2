import Toolchain32.Text.Column
import Toolchain32.Yaml.Character

/-!
# Writing at an indent

A pen holds what is written and knows where it stands. `Pen.indentTo` begins a new line only where
one is needed: behind a mark that indents, an entry goes on the line of the mark.
-/

namespace Toolchain32.Yaml

structure Pen where
  text : String
  column : Nat
  /-- Whether nothing stands on the line but blanks and marks that indent. -/
  isIndented : Bool
  /-- Whether a blank separates what comes next from what stands before it. -/
  isSeparate : Bool
  deriving DecidableEq, Repr

/-- A mark of the format. -/
structure Mark where
  text : String
  /-- Whether it is separate from what stands before it. -/
  needsBlank : Bool
  /-- Whether what comes next needs no blank after it. -/
  separates : Bool
  /-- Whether an entry may follow it on its line. -/
  indents : Bool
  deriving DecidableEq, Repr

namespace Mark

def keyStart : Mark := ⟨"?", true, false, true⟩

/-- The mark of the value behind a key that has a mark of its own. -/
def valueStart : Mark := ⟨":", true, false, true⟩

/-- The mark that ends a key on its line. -/
def keyEnd : Mark := ⟨":", false, false, false⟩

def mappingStart : Mark := ⟨"\x7b", true, true, false⟩

/-- A mark that begins a text. -/
def opening (text : String) : Mark := ⟨text, true, false, false⟩

/-- A mark that goes on or ends what stands before it. -/
def closing (text : String) : Mark := ⟨text, false, false, false⟩

end Mark

namespace Pen

def start : Pen := ⟨"", 0, true, true⟩

/-- One more character. A break begins a new line. -/
def put (p : Pen) (c : Char) : Pen :=
  if isBreak c then { p with text := p.text.push c, column := 0, isIndented := true }
  else { p with text := p.text.push c, column := p.column + 1 }

def putText (p : Pen) (s : List Char) : Pen := s.foldl put p

def indentTo (p : Pen) (n : Nat) : Pen :=
  let startsLine := !p.isIndented || n < p.column || (n == p.column && !p.isSeparate)
  let p := if startsLine then p.put '\n' else p
  ⟨p.text ++ Text.blanks (n - p.column), max n p.column, true, true⟩

theorem column_indentTo (p : Pen) (n : Nat) : (p.indentTo n).column = n := by
  unfold indentTo
  dsimp only
  split
  · simp [put, isBreak]
  · rename_i h
    simp only [Bool.or_eq_true, decide_eq_true_eq, not_or, Nat.not_lt] at h
    exact Nat.max_eq_left h.1.2

def separate (p : Pen) : Pen := if p.isSeparate then p else p.put ' '

def putMark (p : Pen) (m : Mark) : Pen :=
  let p := (if m.needsBlank then p.separate else p).putText m.text.toList
  { p with isIndented := p.isIndented && m.indents, isSeparate := m.separates }

/-- One more character of a text whose lines are indented. -/
def putIndented (indent : Nat) (p : Pen) (c : Char) : Pen :=
  if isBreak c then p.put c
  else { (if p.column = 0 then p.indentTo indent else p).put c with isIndented := false }

end Pen

end Toolchain32.Yaml
