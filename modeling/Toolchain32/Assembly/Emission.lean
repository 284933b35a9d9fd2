import Toolchain32.Assembly.Locations
import Toolchain32.Assembly.Program
import Toolchain32.Assembly.SymbolTable
import Toolchain32.Source.Encoding

/-!
# Emitting a program

The second walk over a program turns each line with content into a row: the words of the line,
where they stand, and a relocation record for each of its references. The symbol table is complete
before the walk begins.
-/

namespace Toolchain32

/-- What one source line puts into its section. -/
structure Row where
  line : Nat
  sectionName : String
  offset : Nat
  words : List Slot
  relocations : List Relocation
  /-- An operation, rather than data. -/
  isCode : Bool
  deriving DecidableEq, Repr

namespace Row

/-- The words with their offsets in the section. -/
def entries (r : Row) : List (Word × Slot) :=
  r.words.zipIdx.map fun (slot, i) => (UInt32.ofNat (r.offset + 4 * i), slot)

end Row

namespace SymbolTable

/-- The relocation record of a reference. A section, and a label that is local, are reached through
the section; any other defined symbol through its own name. -/
def relocation (t : SymbolTable) (name : String) (offset : Word) :
    Except AssemblyError Relocation :=
  match t.get? name with
  | none => .error (.undefinedSymbol name)
  | some s =>
    if s.kind = .ofSection then .ok ⟨offset, .sectionRelative, s.name, 0, name⟩
    else match s.binding with
      | .localOnly =>
        match t.byId? s.owner with
        | some owner => .ok ⟨offset, .sectionRelative, owner.name, s.value, name⟩
        | none => .error (.undefinedSymbol name)
      | .global | .external => .ok ⟨offset, .absolute, s.name, 0, name⟩
      | .undefined => .error (.undefinedSymbol name)

/-- The slot of a piece and the relocation record it needs, if any. -/
def slot (t : SymbolTable) (offset : Word) : Piece → Except AssemblyError (Slot × Option Relocation)
  | .word w => .ok (.word w, none)
  | .reference name => (t.relocation name offset).map fun r => (.placeholder, some r)

/-- The slots of consecutive pieces, the first of which stands at the offset. -/
def slots (t : SymbolTable) (offset : Nat) :
    List Piece → Except AssemblyError (List (Slot × Option Relocation))
  | [] => .ok []
  | p :: rest => do
    let first ← t.slot (UInt32.ofNat offset) p
    return first :: (← t.slots (offset + 4) rest)

/-- The linkage directives of a program, which hold for the whole source wherever they stand. -/
def declare (t : SymbolTable) : Statement → Except AssemblyError SymbolTable
  | .global names => names.foldlM declareGlobal t
  | .external names => names.foldlM declareExternal t
  | _ => .ok t

def declareAll (t : SymbolTable) : Program → Except SourceError SymbolTable
  | [] => .ok t
  | l :: rest =>
    match l.line.statement with
    | none => t.declareAll rest
    | some statement =>
      match t.declare statement with
      | .error e => .error ⟨l.number, e⟩
      | .ok t => t.declareAll rest

end SymbolTable

/-- What a statement emits, if it has any content. -/
def Statement.pieces? : Statement → Except AssemblyError (Option (List Piece))
  | .words values => .ok (some (values.map Value.piece))
  | .skip n => (skipBytes n).map fun bytes => some (List.replicate (bytes / 4) (.word 0))
  | .operation op => .ok (some op.pieces)
  | .global _ | .external _ | .openSection _ | .finish => .ok none

def Statement.isOperation : Statement → Bool
  | .operation _ => true
  | _ => false

namespace Locations

/-- The current section; if there is none, the implicit one is opened. -/
def ensure (implicit : Option String) (outside : AssemblyError) (l : Locations) :
    Except AssemblyError (String × Locations) :=
  match l.current, implicit with
  | some name, _ => .ok (name, l)
  | none, some name => .ok (name, l.enter name)
  | none, none => .error outside

/-- The row of some pieces put into the current section by a line. -/
def emit (implicit : Option String) (t : SymbolTable) (l : Locations) (line : Nat) (isCode : Bool)
    (pieces : List Piece) : Except AssemblyError (Row × Locations) := do
  let (sectionName, l) ← l.ensure implicit .contentOutsideSection
  let offset := l.counter sectionName
  let slots ← t.slots offset pieces
  let l ← l.advance sectionName (4 * pieces.length)
  return ({ line, sectionName, offset, words := slots.map (·.1),
            relocations := slots.filterMap (·.2), isCode }, l)

/-- The row of a statement, if it has content. -/
def emitStatement (implicit : Option String) (t : SymbolTable) (l : Locations) (line : Nat) :
    Statement → Except AssemblyError (List Row × Locations)
  | .openSection name => .ok ([], l.enter name)
  | s => do
    match ← s.pieces? with
    | none => return ([], l)
    | some pieces =>
      let (row, l) ← l.emit implicit t line s.isOperation pieces
      return ([row], l)

def emitLine (implicit : Option String) (t : SymbolTable) (l : Locations) (n : NumberedLine) :
    Except AssemblyError (List Row × Locations) := do
  let l ← match n.line.label with
    | some name => (l.ensure implicit (.labelOutsideSection name)).map (·.2)
    | none => .ok l
  match n.line.statement with
  | some statement => l.emitStatement implicit t n.number statement
  | none => return ([], l)

/-- The rows of a program in order, and the counters after it. -/
def emitLines (implicit : Option String) (t : SymbolTable) :
    Locations → Program → Except SourceError (List Row × Locations)
  | l, [] => .ok ([], l)
  | l, n :: rest =>
    match l.emitLine implicit t n with
    | .error e => .error ⟨n.number, e⟩
    | .ok (rows, l) => (l.emitLines implicit t rest).map fun (more, l) => (rows ++ more, l)

end Locations

end Toolchain32
