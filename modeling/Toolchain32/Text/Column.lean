/-!
# Columns

A cell is padded with blanks to a width counted in characters; a longer one is left as it is.
-/

namespace Toolchain32.Text

def blanks (n : Nat) : String := String.ofList (List.replicate n ' ')

def padRight (width : Nat) (s : String) : String := s ++ blanks (width - s.length)

def padLeft (width : Nat) (s : String) : String := blanks (width - s.length) ++ s

def rule (n : Nat) : String := String.ofList (List.replicate n '-')

/-- A line of output. -/
def line (s : String) : String := s ++ "\n"

end Toolchain32.Text
