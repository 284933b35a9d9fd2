import Toolchain32.Assembly.Emission
import Toolchain32.Instruction.Codec
import Toolchain32.Instruction.Disassembly
import Toolchain32.Text.Split

/-!
# Listings

A listing shows every source line, with the words it emitted to the left of it: one word to a line
of output, the first of which also shows the source line and, for an operation, the disassembled
instruction.
-/

namespace Toolchain32

namespace Listing

open Text

def byteText (w : Word) (shift : Nat) : String := upperHex 2 ((w.toNat >>> shift) % 0x100)

/-- The four bytes of a slot. -/
def slotText : Slot → String
  | .word w =>
    String.intercalate " " [byteText w 24, byteText w 16, byteText w 8, byteText w 0]
  | .placeholder => alarming "?? ?? ?? ??"

/-- The coloured place of a word. -/
def placeText (sectionName : String) (offset : Nat) : String :=
  colored .cyan (padLeft 16 (sectionName ++ "+" ++ upperHex 4 offset))

/-- A source line with its number. -/
def sourceText (number : Nat) (text : String) : String :=
  padLeft 4 (toString number) ++ ": " ++ text

/-- The disassembly of a row's first word, empty for data and for a word that does not decode. -/
def disassembly (isCode : Bool) : Slot → String
  | .word w =>
    if isCode then
      match Instruction.decode w with
      | .ok i => i.disassemble
      | .error _ => ""
    else ""
  | .placeholder => ""

def firstLine (row : Row) (text : String) (slot : Slot) : String :=
  placeText row.sectionName row.offset ++ " " ++ slotText slot ++ " | " ++
    sourceText row.line (padRight 32 text) ++ " " ++ disassembly row.isCode slot

/-- The lines of the words after the first one. -/
def furtherLines (sectionName : String) : Nat → List Slot → List String
  | _, [] => []
  | offset, slot :: rest =>
    (placeText sectionName offset ++ " " ++ slotText slot ++ " |") ::
      furtherLines sectionName (offset + 4) rest

/-- The output lines of a source line without words. -/
def bareLine (number : Nat) (text : String) : String :=
  blanks 31 ++ "| " ++ sourceText number text

/-- The output lines of a source line and the row it emitted. -/
def rowLines (row : Row) (text : String) : List String :=
  match row.words with
  | [] => [bareLine row.line text]
  | slot :: rest => firstLine row text slot :: furtherLines row.sectionName (row.offset + 4) rest

/-- The output lines of numbered source lines; the rows are in the order of their lines. -/
def bodyLines : Nat → List String → List Row → List String
  | _, [], _ => []
  | n, text :: rest, [] => bareLine n text :: bodyLines (n + 1) rest []
  | n, text :: rest, row :: rows =>
    if row.line = n then rowLines row text ++ bodyLines (n + 1) rest rows
    else bareLine n text :: bodyLines (n + 1) rest (row :: rows)

def header (path : String) : String :=
  rule 31 ++ "+------[" ++ path ++ "]" ++ rule (45 - path.utf8ByteSize)

def footer : String := rule 31 ++ "+" ++ rule 53

def print (path : String) (source : String) (rows : List Row) : String :=
  let texts := (Text.lines source.toList).map String.ofList
  String.join (([header path] ++ bodyLines 1 texts rows ++ [footer]).map line)

end Listing

/-- An error with the source line it belongs to underneath. -/
def SourceError.diagnosis (e : SourceError) (path : String) (source : String) : String :=
  let texts := (Text.lines source.toList).map String.ofList
  let bar := "      " ++ Text.colored .blue "|" ++ "\n"
  let content := (texts[e.line - 1]?).getD ""
  Text.failureLine e.error.message ++
    "     " ++ Text.colored .blue "-->" ++ " " ++ Text.underlined s!"{path}:{e.line}" ++ "\n" ++
    bar ++ " " ++ Text.colored .blue (Text.padLeft 4 (toString e.line) ++ " |") ++ " " ++ content ++
    "\n" ++ bar

end Toolchain32
