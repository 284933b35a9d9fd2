import Toolchain32.Link
import Toolchain32.Object.Printer
import Toolchain32.Text.Style

/-!
# Link reports

The section headers, the merged symbol table and the rebased relocations, as coloured columns.
-/

namespace Toolchain32

namespace LinkReport

open Text

def address (w : Word) : String := colored .cyan (upperHex 8 w.toNat)

def regionLine (r : Region) : String :=
  "  " ++ address r.start ++ "  " ++ upperHex 8 r.size.toNat ++ "  " ++ r.name

def symbolLine (s : ObjectSymbol) : String :=
  "  " ++ padRight 4 (toString s.id) ++ address s.value ++ "  " ++ padRight 10 s.kind.name ++
    padRight 10 s.binding.name ++ padRight 10 (ownerText s.owner) ++ s.name

def patchLine (p : Patch) : String :=
  let r := p.relocation
  "  " ++ address r.offset ++ "  " ++ padRight 10 r.kind.name ++ padRight 16 r.symbol ++
    upperHex 8 r.addend.toNat ++ "  " ++ colored .green (upperHex 8 p.value.toNat)

def lines (l : Linked) : List String :=
  [bold "Section headers", "  ADDRESS   SIZE      SECTION"] ++ l.regions.map regionLine ++
    [bold "Symbol table", "  ID  VALUE     TYPE      BINDING   SECTION   NAME"] ++
    l.symbols.map symbolLine ++
    [bold "Relocations", "  ADDRESS   TYPE      SYMBOL          ADDEND    VALUE"] ++
    l.patches.map patchLine

def print (l : Linked) : String := String.join ((lines l).map line)

end LinkReport

end Toolchain32
