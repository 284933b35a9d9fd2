import Toolchain32.Link
import Toolchain32.Yaml.Writer

/-!
# Link maps

The final addresses of the sections and of the global symbols of a link, and their YAML form.
-/

namespace Toolchain32

structure MappedSection where
  address : Word
  size : Word
  deriving DecidableEq, Repr

structure MappedSymbol where
  address : Word
  sectionName : String
  deriving DecidableEq, Repr

structure LinkMap where
  sections : List (String × MappedSection)
  symbols : List (String × MappedSymbol)
  deriving DecidableEq, Repr

namespace LinkMap

/-- The regions in placement order and the global symbols in table order, each symbol with the name
of the section that owns it. -/
def ofLinked (l : Linked) : LinkMap where
  sections := l.regions.map fun r => (r.name, ⟨r.start, r.size⟩)
  symbols := (l.symbols.filter (·.binding == .global)).map fun s =>
    (s.name, ⟨s.value, ((l.symbols[s.owner]?).map (·.name)).getD ""⟩)

def wordText (w : Word) : String := "0x" ++ Text.upperHex 8 w.toNat

def sectionTree (s : MappedSection) : Yaml.Tree :=
  .mapping [("addr", .text (wordText s.address)), ("size", .text (wordText s.size))]

def symbolTree (s : MappedSymbol) : Yaml.Tree :=
  .mapping [("addr", .text (wordText s.address)), ("section", .text s.sectionName)]

def print (m : LinkMap) : String :=
  Yaml.printMapping
    [("sections", .mapping (m.sections.map fun e => (e.1, sectionTree e.2))),
      ("symbols", .mapping (m.symbols.map fun e => (e.1, symbolTree e.2)))]

end LinkMap

end Toolchain32
