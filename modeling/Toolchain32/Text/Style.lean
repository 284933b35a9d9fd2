/-!
# Terminal styles

A style is opened and closed by the terminal's control sequences. Closing a colour restores the
terminal's own foreground.
-/

namespace Toolchain32.Text

/-- The control sequence that selects the graphic rendition `code`. -/
def rendition (code : Nat) : String := s!"\x1b[{code}m"

inductive Color
  | red | green | yellow | blue | cyan
  deriving DecidableEq, Repr

def Color.code : Color → Nat
  | .red => 31
  | .green => 32
  | .yellow => 33
  | .blue => 34
  | .cyan => 36

def Color.start (c : Color) : String := rendition c.code

def colorEnd : String := rendition 39

def colored (c : Color) (s : String) : String := c.start ++ s ++ colorEnd

def bold (s : String) : String := rendition 1 ++ s ++ rendition 22

def underlined (s : String) : String := rendition 4 ++ s ++ rendition 24

/-- Red and bold: both styles are opened in that order and closed in that order. -/
def alarming (s : String) : String :=
  Color.red.start ++ rendition 1 ++ s ++ colorEnd ++ rendition 22

/-- The line that announces a failure. -/
def failureLine (message : String) : String := alarming "error" ++ ": " ++ message ++ "\n"

end Toolchain32.Text
