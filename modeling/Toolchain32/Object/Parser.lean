import Toolchain32.ErrorKind
import Toolchain32.Object
import Toolchain32.Text.Blank
import Toolchain32.Text.Numeral
import Toolchain32.Text.Split

/-!
# Reading the text of an object

The text is read line by line. A heading opens a table or a section's list, column titles are
skipped, and a blank line closes a relocation list; every other line is a row of what is open, its
columns separated by white space. The rows read so far are kept last row first. `Object.parse` puts
them in order and checks the object as a whole.
-/

namespace Toolchain32

namespace Object

/-- What is wrong with an object text. -/
inductive Flaw
  | outsideTables
  | sectionColumns
  | symbolColumns
  | relocationColumns
  | wordColumns
  | sectionId
  | sectionSize
  | symbolId
  | symbolValue
  | symbolKind
  | binding
  | relocationOffset
  | relocationKind
  | addend
  | wordOffset
  | word
  | symbolIdOrder (name : String)
  | sectionMissing (name : String)
  | dataOfNoSection (name : String)
  | wordOutsideSection (offset : Word) (name : String)
  deriving DecidableEq, Repr

namespace Flaw

def message : Flaw → String
  | outsideTables => "unexpected line outside of any table"
  | sectionColumns => "expected \x60ID VALUE NAME\x60"
  | symbolColumns => "expected \x60ID VALUE TYPE BINDING SECTION NAME\x60"
  | relocationColumns => "expected \x60OFFSET TYPE SYMBOL ADDEND\x60"
  | wordColumns => "expected \x60OFFSET: WORD\x60"
  | sectionId => "bad section id"
  | sectionSize => "bad section size"
  | symbolId => "bad symbol id"
  | symbolValue => "bad symbol value"
  | symbolKind => "bad symbol type"
  | binding => "bad binding"
  | relocationOffset => "bad relocation offset"
  | relocationKind => "bad relocation type"
  | addend => "bad addend"
  | wordOffset => "bad data offset"
  | word => "bad data word"
  | symbolIdOrder name => s!"symbol ids are not sequential at \x60{name}\x60"
  | sectionMissing name => s!"section \x60{name}\x60 missing from section table"
  | dataOfNoSection name => s!"data for unknown section \x60{name}\x60"
  | wordOutsideSection offset name =>
    "word at " ++ Text.hex 4 offset.toNat ++ s!" outside section \x60{name}\x60"

end Flaw

/-- A flaw and the number of its line, 0 for one of the object as a whole. -/
structure FormatError where
  line : Nat
  flaw : Flaw
  deriving DecidableEq, Repr

namespace FormatError

def message (e : FormatError) : String :=
  s!"Malformed object file (line {e.line}): " ++ e.flaw.message

def kind (_ : FormatError) : ErrorKind := .format

end FormatError

/-- The table or list that the next row belongs to. -/
inductive Block
  | outside
  | sections
  | symbols
  | relocations (name : String)
  | words (name : String)
  deriving DecidableEq, Repr

/-- A field that has to be readable, or else the flaw. -/
def need {α : Type} (flaw : Flaw) : Option α → Except Flaw α
  | some a => .ok a
  | none => .error flaw

/-- The value of a list that has the given name. -/
def named {α : Type} (name : α → String) (values : List α) (s : List Char) : Option α :=
  values.find? fun v => name v == String.ofList s

def readSection : List (List Char) → Except Flaw Section
  | [id, size, name] => do
    let id ← need .sectionId (Text.word? 10 id)
    let size ← need .sectionSize (Text.word? 16 size)
    return { id := id.toNat, name := String.ofList name, size }
  | _ => throw .sectionColumns

def readOwner (s : List Char) : Except Flaw Nat :=
  if String.ofList s = "UND" then .ok 0 else (need .sectionId (Text.word? 10 s)).map UInt32.toNat

/-- A row of the symbol table, whose name is empty if there is no such column. -/
def readSymbolColumns (id value kind binding owner name : List Char) :
    Except Flaw ObjectSymbol := do
  let id ← need .symbolId (Text.word? 10 id)
  let value ← need .symbolValue (Text.word? 16 value)
  let kind ← need .symbolKind (named SymbolKind.name SymbolKind.all kind)
  let binding ← need .binding (named Binding.name Binding.all binding)
  let owner ← readOwner owner
  return { id := id.toNat, name := String.ofList name, value, kind, owner, binding }

def readSymbol : List (List Char) → Except Flaw ObjectSymbol
  | [id, value, kind, binding, owner] => readSymbolColumns id value kind binding owner []
  | [id, value, kind, binding, owner, name] => readSymbolColumns id value kind binding owner name
  | _ => throw .symbolColumns

/-- A text without the opening parentheses before it and the closing ones after it. -/
def dropParentheses (s : List Char) : List Char :=
  ((s.dropWhile (· == '(')).reverse.dropWhile (· == ')')).reverse

/-- A relocation record; without an origin column the origin is the symbol. -/
def readRelocation : List (List Char) → Except Flaw Relocation
  | offset :: kind :: symbol :: addend :: rest => do
    let offset ← need .relocationOffset (Text.word? 16 offset)
    let kind ← need .relocationKind (named RelocationKind.name RelocationKind.all kind)
    let addend ← need .addend (Text.word? 16 addend)
    let origin := match rest with
      | [] => symbol
      | written :: _ => dropParentheses written
    return { offset, kind, symbol := String.ofList symbol, addend, origin := String.ofList origin }
  | _ => throw .relocationColumns

def readSlot (s : List Char) : Except Flaw Slot :=
  if String.ofList s = "????????" then .ok .placeholder
  else (need .word (Text.exactWord? s)).map .word

/-- The offset of a word: a hexadecimal number and a colon. -/
def readOffset (s : List Char) : Except Flaw Word :=
  need .wordOffset <| if s.getLast? = some ':' then Text.word? 16 s.dropLast else none

def readWord : List (List Char) → Except Flaw (Word × Slot)
  | [offset, word] => do
    let offset ← readOffset offset
    let slot ← readSlot word
    return (offset, slot)
  | _ => throw .wordColumns

/-- The block that a heading opens. -/
def heading? (line : List Char) : Option Block :=
  if String.ofList line = "SECTION_TABLE" then some .sections
  else if String.ofList line = "SYMBOL_TABLE" then some .symbols
  else match Text.after? "RELOCATION_DATA: #" line with
    | some name => some (.relocations (String.ofList name))
    | none => (Text.after? "SECTION_DATA: #" line).map fun name => .words (String.ofList name)

/-- Whether a line holds the column titles of a table. -/
def isTitle (line : List Char) : Bool :=
  (Text.after? "ID " line).isSome || (Text.after? "OFFSET " line).isSome

/-- The object with the data of a list that its heading names, which may still be empty. -/
def openBlock (o : Object) : Block → Object
  | .relocations name | .words name => o.updateData name id
  | _ => o

/-- The object with one more row, in front of the rows of its table or list. -/
def addRow (o : Object) (columns : List (List Char)) : Block → Except Flaw Object
  | .outside => throw .outsideTables
  | .sections => do
    let s ← readSection columns
    return { o with sections := s :: o.sections }
  | .symbols => do
    let s ← readSymbol columns
    return { o with symbols := s :: o.symbols }
  | .relocations name => do
    let r ← readRelocation columns
    return o.updateData name fun d => { d with relocations := r :: d.relocations }
  | .words name => do
    let (offset, slot) ← readWord columns
    return o.updateData name fun d => { d with words := d.words.insert offset slot }

/-- What is open after a blank line. -/
def Block.afterBlank : Block → Block
  | .relocations _ => .outside
  | block => block

/-- The object and the open block after one more line. -/
def readLine (o : Object) (block : Block) (raw : List Char) : Except Flaw (Object × Block) :=
  let line := Text.trim raw
  if line.isEmpty then .ok (o, block.afterBlank)
  else if isTitle line then .ok (o, block)
  else match heading? line with
    | some opened => .ok (o.openBlock opened, opened)
    | none => (o.addRow (Text.words line) block).map fun o => (o, block)

def readLines (o : Object) (block : Block) : Nat → List (List Char) → Except FormatError Object
  | _, [] => .ok o
  | n, raw :: rest =>
    match readLine o block raw with
    | .error flaw => .error ⟨n, flaw⟩
    | .ok (o, block) => readLines o block (n + 1) rest

/-- The object whose tables and relocation lists have their rows in the opposite order. -/
def reversed (o : Object) : Object where
  sections := o.sections.reverse
  symbols := o.symbols.reverse
  data := o.data.map fun (name, d) => (name, { d with relocations := d.relocations.reverse })

/-- The first symbol whose id is not its place in the table. -/
def misplacedSymbol? (o : Object) : Option ObjectSymbol :=
  (o.symbols.zipIdx.find? fun (s, i) => s.id != i).map (·.1)

/-- What is wrong with the data of one section: it has no row in the section table, or a word that
does not end within the section. -/
def dataFlaw? (o : Object) (entry : String × SectionData) : Option Flaw :=
  match o.section? entry.1 with
  | none => some (.dataOfNoSection entry.1)
  | some s =>
    (entry.2.words.toList.find? fun w => s.size.toNat < w.1.toNat + 4).map fun w =>
      .wordOutsideSection w.1 entry.1

/-- What is wrong with the object as a whole. -/
def flaw? (o : Object) : Option Flaw :=
  match o.misplacedSymbol? with
  | some s => some (.symbolIdOrder s.name)
  | none =>
    match o.sectionSymbols.find? fun s => (o.section? s.name).isNone with
    | some s => some (.sectionMissing s.name)
    | none => o.data.findSome? o.dataFlaw?

def parse (text : String) : Except FormatError Object := do
  let rows ← readLines empty .outside 1 (Text.lines text.toList)
  match rows.reversed.flaw? with
  | some flaw => throw ⟨0, flaw⟩
  | none => return rows.reversed

end Object

end Toolchain32
