import Toolchain32.Yaml.Character

/-!
# Folding

White space within a flow scalar. Blanks on one line stand for themselves; a single line break
stands for a blank, further breaks stand for themselves, and the blanks around breaks are dropped.
-/

namespace Toolchain32.Yaml

/-- White space read so far, backwards; after a break also the first break, which is missing if it
was escaped. -/
inductive Gap
  | blanks (reversed : List Char)
  | breaks (first : Option Char) (reversed : List Char)
  deriving DecidableEq, Repr

namespace Gap

def empty : Gap := blanks []

def isEmpty : Gap → Bool
  | blanks cs => cs.isEmpty
  | breaks .. => false

def hasBreak : Gap → Bool
  | blanks _ => false
  | breaks .. => true

/-- One more character of white space. -/
def push (c : Char) : Gap → Gap
  | blanks cs => if isBreak c then breaks (some c) [] else blanks (c :: cs)
  | breaks first more => if isBreak c then breaks first (c :: more) else breaks first more

/-- What the white space stands for. -/
def folded : Gap → List Char
  | blanks cs => cs.reverse
  | breaks first more =>
    if first = some '\n' then if more.isEmpty then [' '] else more.reverse
    else first.toList ++ more.reverse

/-- Text that was read backwards, with the white space after it. -/
def flush (gap : Gap) (text : List Char) : List Char := gap.folded.reverse ++ text

end Gap

end Toolchain32.Yaml
