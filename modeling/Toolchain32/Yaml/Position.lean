/-!
# Positions in a text

An error names its position behind its text, except for the very start of a text.
-/

namespace Toolchain32.Yaml

/-- A line and a column, both counted from zero. -/
structure Position where
  line : Nat
  column : Nat
  deriving DecidableEq, Repr

namespace Position

def start : Position := ⟨0, 0⟩

/-- The start of the next line; a place at the start of a line stays there. -/
def lineEnd (m : Position) : Position := if m.column = 0 then m else ⟨m.line + 1, 0⟩

/-- The place behind the text of an error. -/
def locate (m : Position) : String :=
  if m = start then "" else s!" at line {m.line + 1} column {m.column + 1}"

theorem lineEnd_column (m : Position) : m.lineEnd.column = 0 := by
  unfold lineEnd
  split <;> simp_all

end Position

end Toolchain32.Yaml
