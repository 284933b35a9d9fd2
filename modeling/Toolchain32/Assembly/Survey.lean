import Toolchain32.Assembly.Locations
import Toolchain32.Assembly.Program
import Toolchain32.Assembly.SymbolTable
import Toolchain32.Source.Encoding

/-!
# Surveying a program

The first walk over a program finds the size of every section and the place of every label, from
the spelling of the lines alone. `Survey.symbols` is the symbol table that it leads to: a symbol
for each section, then one for each label.
-/

namespace Toolchain32

/-- A label and its place. -/
structure Label where
  name : String
  sectionName : String
  offset : Nat
  deriving DecidableEq, Repr

structure Survey where
  locations : Locations
  /-- The labels in order of appearance. -/
  labels : List Label
  deriving DecidableEq, Repr

namespace Survey

def empty : Survey := ⟨.empty, []⟩

def hasLabel (s : Survey) (name : String) : Bool := s.labels.any (·.name == name)

/-- A section becomes the current one; a new one must not bear the name of a label. -/
def enter (s : Survey) (name : String) : Except AssemblyError Survey :=
  if !s.locations.isOpened name && s.hasLabel name then .error (.redefinedSymbol name)
  else .ok { s with locations := s.locations.enter name }

/-- The current section; if there is none, the implicit one is opened, or else `outside` is the
error. -/
def ensure (implicit : Option String) (outside : AssemblyError) (s : Survey) :
    Except AssemblyError (String × Survey) :=
  match s.locations.current, implicit with
  | some name, _ => .ok (name, s)
  | none, some name => (s.enter name).map fun s => (name, s)
  | none, none => .error outside

/-- A label is defined at the current place. -/
def define (implicit : Option String) (s : Survey) (name : String) :
    Except AssemblyError Survey := do
  let (sectionName, s) ← s.ensure implicit (.labelOutsideSection name)
  if s.hasLabel name || s.locations.isOpened name then
    throw (.redefinedSymbol name)
  return { s with labels := s.labels ++ [⟨name, sectionName, s.locations.counter sectionName⟩] }

/-- Content of the given length is put into the current section. -/
def add (implicit : Option String) (s : Survey) (bytes : Except AssemblyError Nat) :
    Except AssemblyError Survey := do
  let (sectionName, s) ← s.ensure implicit .contentOutsideSection
  let bytes ← bytes
  let locations ← s.locations.advance sectionName bytes
  return { s with locations }

def statement (implicit : Option String) (s : Survey) : Statement → Except AssemblyError Survey
  | .global _ | .external _ | .finish => .ok s
  | .openSection name => s.enter name
  | .words values => s.add implicit (.ok (4 * values.length))
  | .skip n => s.add implicit (skipBytes n)
  | .operation op => s.add implicit (.ok op.size)

/-- A line's label is defined before its statement takes effect. -/
def line (implicit : Option String) (s : Survey) (l : Line) : Except AssemblyError Survey := do
  let s ← match l.label with
    | some name => s.define implicit name
    | none => .ok s
  match l.statement with
  | some statement => s.statement implicit statement
  | none => return s

/-- The survey of a program, continued from an earlier one. -/
def lines (implicit : Option String) : Survey → Program → Except SourceError Survey
  | s, [] => .ok s
  | s, l :: rest =>
    match s.line implicit l.line with
    | .error e => .error ⟨l.number, e⟩
    | .ok s => s.lines implicit rest

def ofProgram (implicit : Option String) (program : Program) : Except SourceError Survey :=
  empty.lines implicit program

/-- The section table: sizes in the order of first opening. -/
def sections (s : Survey) : List Section :=
  s.locations.counters.zipIdx.map fun (c, i) => ⟨i, c.1, UInt32.ofNat c.2⟩

/-- The symbol table before any directive: the sections, then the labels. -/
def symbols (s : Survey) : SymbolTable :=
  let sections := s.locations.counters.foldl (fun t c => t.push c.1 0 .ofSection none .localOnly)
    SymbolTable.empty
  s.labels.foldl (fun t l =>
    t.push l.name (UInt32.ofNat l.offset) .plain ((t.get? l.sectionName).map (·.id)) .localOnly)
    sections

end Survey

end Toolchain32
