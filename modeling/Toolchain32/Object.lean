import Std.Data.ExtTreeMap
import Toolchain32.Word

/-!
# Relocatable objects

An object holds a section table, a symbol table and, by section name, the words of each section
with their relocation records. A word that the linker fills in is a placeholder.

The order in which the sections' data is kept matters to a link, not to equality: `Object.Same`
compares the data as a map.
-/

namespace Toolchain32

inductive SymbolKind
  | plain
  /-- Stands for the begin of the section of the same name. -/
  | ofSection
  deriving DecidableEq, Repr

inductive Binding
  | localOnly
  | global
  | external
  | undefined
  deriving DecidableEq, Repr

inductive RelocationKind
  /-- Patched with the final address of a symbol. -/
  | absolute
  /-- Patched with the base of a section plus the addend. -/
  | sectionRelative
  deriving DecidableEq, Repr

namespace SymbolKind

def all : List SymbolKind := [plain, ofSection]

def name : SymbolKind → String
  | plain => "NOTYPE"
  | ofSection => "SECTION"

end SymbolKind

namespace Binding

def all : List Binding := [localOnly, global, external, undefined]

def name : Binding → String
  | localOnly => "LOCAL"
  | global => "GLOBAL"
  | external => "EXTERN"
  | undefined => "UNDEFINED"

end Binding

namespace RelocationKind

def all : List RelocationKind := [absolute, sectionRelative]

def name : RelocationKind → String
  | absolute => "R_ABS_32"
  | sectionRelative => "R_SEO_32"

end RelocationKind

structure ObjectSymbol where
  id : Nat
  name : String
  value : Word
  kind : SymbolKind
  /-- The id of the symbol of the owning section, 0 when there is none. -/
  owner : Nat
  binding : Binding
  deriving DecidableEq, Repr

namespace ObjectSymbol

/-- The reserved entry that every symbol table starts with. -/
def null : ObjectSymbol := ⟨0, "", 0, .plain, 0, .localOnly⟩

end ObjectSymbol

structure Section where
  id : Nat
  name : String
  size : Word
  deriving DecidableEq, Repr

structure Relocation where
  offset : Word
  kind : RelocationKind
  /-- The symbol that the patch resolves against: a section's name when it is section-relative. -/
  symbol : String
  /-- A signed number in two's complement. -/
  addend : Word
  /-- The name as the source operand spells it. -/
  origin : String
  deriving DecidableEq, Repr

inductive Slot
  | word (w : Word)
  | placeholder
  deriving DecidableEq, Repr

/-- The relocation records of a section and its words by offset. -/
structure SectionData where
  relocations : List Relocation
  words : Std.ExtTreeMap Word Slot
  deriving DecidableEq

def SectionData.empty : SectionData := ⟨[], ∅⟩

structure Object where
  sections : List Section
  symbols : List ObjectSymbol
  data : List (String × SectionData)

namespace Object

def empty : Object := ⟨[], [], []⟩

/-- The first symbol of the name, the reserved entry apart. -/
def symbol? (o : Object) (name : String) : Option ObjectSymbol :=
  o.symbols.find? fun s => s.id != 0 && s.name == name

def symbolById? (o : Object) (id : Nat) : Option ObjectSymbol := o.symbols.find? (·.id == id)

def section? (o : Object) (name : String) : Option Section := o.sections.find? (·.name == name)

/-- The symbols that stand for sections, in table order. -/
def sectionSymbols (o : Object) : List ObjectSymbol := o.symbols.filter (·.kind == .ofSection)

def data? (o : Object) (name : String) : Option SectionData := o.data.lookup name

/-- The entries with the one of the given name changed; a missing one is added at the end. -/
def updateEntry (name : String) (f : SectionData → SectionData) :
    List (String × SectionData) → List (String × SectionData)
  | [] => [(name, f .empty)]
  | (n, d) :: rest => if n = name then (n, f d) :: rest else (n, d) :: updateEntry name f rest

def updateData (o : Object) (name : String) (f : SectionData → SectionData) : Object :=
  { o with data := updateEntry name f o.data }

/-- Equality that ignores the order of the data. -/
def Same (o p : Object) : Prop :=
  o.sections = p.sections ∧ o.symbols = p.symbols ∧ ∀ name, o.data? name = p.data? name

/-- Whether two objects are the same, decided at the names that either of them holds. -/
def sameAs (o p : Object) : Bool :=
  o.sections == p.sections && o.symbols == p.symbols &&
    (o.data ++ p.data).all fun e => decide (o.data? e.1 = p.data? e.1)

end Object

end Toolchain32
