import Toolchain32.Object
import Toolchain32.Text.Column
import Toolchain32.Text.Numeral

/-!
# The text of an object

`Object.print` writes the section table, the symbol table and then, for each section symbol, the
relocation records and the words of its section, in aligned columns.
-/

namespace Toolchain32

def Slot.print : Slot → String
  | .word w => Text.upperHex 8 w.toNat
  | .placeholder => "????????"

/-- The owner column: the id of a symbol, or `UND`. -/
def ownerText (id : Nat) : String := if id = 0 then "UND" else toString id

namespace Object

open Text

def sectionLine (s : Section) : String :=
  padRight 6 (toString s.id) ++ hex 8 s.size.toNat ++ "    " ++ s.name

def symbolLine (s : ObjectSymbol) : String :=
  padRight 6 (toString s.id) ++ hex 8 s.value.toNat ++ "    " ++ padRight 10 s.kind.name ++
    padRight 13 s.binding.name ++ padRight 13 (ownerText s.owner) ++ s.name

def relocationLine (r : Relocation) : String :=
  hex 8 r.offset.toNat ++ "     " ++ r.kind.name ++ "     " ++ padRight 14 r.symbol ++ " " ++
    hex 8 r.addend.toNat ++ "     (" ++ r.origin ++ ")"

def wordLine (entry : Word × Slot) : String := hex 4 entry.1.toNat ++ ": " ++ entry.2.print

/-- The relocation list and the word list of one section; an empty word list has one blank line. -/
def dataLines (name : String) (d : SectionData) : List String :=
  let words := d.words.toList.map wordLine
  ["", "RELOCATION_DATA: #" ++ name, "OFFSET       TYPE         SYMBOL         ADDEND"] ++
    d.relocations.map relocationLine ++
    ["", "SECTION_DATA: #" ++ name] ++ (if words.isEmpty then [""] else words)

def printLines (o : Object) : List String :=
  ["", "SECTION_TABLE", "ID    VALUE       NAME"] ++ o.sections.map sectionLine ++
    ["", "SYMBOL_TABLE", "ID    VALUE       TYPE      BINDING      SECTION      NAME"] ++
    o.symbols.map symbolLine ++
    o.sectionSymbols.flatMap fun s => dataLines s.name ((o.data? s.name).getD .empty)

def print (o : Object) : String := String.join (o.printLines.map line)

end Object

end Toolchain32
