/-!
# Cutting a text

`cutAt?` cuts a text at the first character of a class, `separate` at every separator, and `lines`
into its lines. A line ends at a line feed, a carriage return right before that line feed belongs
to the line end, and a last line without a line feed is kept as it stands.
-/

namespace Toolchain32.Text

/-- What stands before and after the first character of the class `p`, if there is one. -/
def cutAt? (p : Char → Bool) (s : List Char) : Option (List Char × List Char) :=
  match s.dropWhile (fun c => !p c) with
  | [] => none
  | _ :: after => some (s.takeWhile (fun c => !p c), after)

/-- One character put in front of a list of pieces whose first piece is still open. -/
def pushPieceChar (separator : Char) (c : Char) (acc : List Char × List (List Char)) :
    List Char × List (List Char) :=
  if c = separator then ([], acc.1 :: acc.2) else (c :: acc.1, acc.2)

/-- The pieces between the separators: one more than there are separators. -/
def separate (separator : Char) (s : List Char) : List (List Char) :=
  let (first, rest) := s.foldr (pushPieceChar separator) ([], [])
  first :: rest

def dropReturn (line : List Char) : List Char :=
  if line.getLast? = some '\r' then line.dropLast else line

/-- The lines among the pieces between line feeds: all but the last one were ended by a line
feed. -/
def linesOfPieces : List (List Char) → List (List Char)
  | [] => []
  | [last] => if last.isEmpty then [] else [last]
  | piece :: rest => dropReturn piece :: linesOfPieces rest

def lines (s : List Char) : List (List Char) := linesOfPieces (separate '\n' s)

/-- What follows the given beginning, if the text begins that way. -/
def after? (beginning : String) (s : List Char) : Option (List Char) :=
  beginning.toList.isPrefixOf? s

end Toolchain32.Text
