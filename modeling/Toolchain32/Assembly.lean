import Toolchain32.Assembly.Emission
import Toolchain32.Assembly.Survey

/-!
# Assembling a source

A source is read, surveyed and emitted. `assemble` gives the object with the words and relocation
records of each section, and the listing of the rows they come from.
-/

namespace Toolchain32

/-- The section that is opened when content or a label comes before any section directive; without
one that is an error. -/
structure AssemblyOptions where
  implicitSection : Option String := some ".text"

structure Assembled where
  object : Object
  listing : List Row

namespace Assembled

/-- The data that the rows put into one section. -/
def sectionData (rows : List Row) (name : String) : SectionData :=
  let own := rows.filter (·.sectionName == name)
  { relocations := own.flatMap (·.relocations)
    words := (own.flatMap Row.entries).foldl (fun m e => m.insert e.1 e.2) ∅ }

def ofRows (survey : Survey) (symbols : SymbolTable) (rows : List Row) : Assembled where
  object :=
    { sections := survey.sections
      symbols := symbols.toList
      data := survey.locations.counters.map fun c => (c.1, sectionData rows c.1) }
  listing := rows

end Assembled

/-- The first section whose emitted size is not the surveyed one. -/
def mismatch? (surveyed emitted : Locations) : Option AssemblyError :=
  (surveyed.counters.find? fun c => emitted.counter c.1 != c.2).map fun c =>
    .passMismatch c.1 c.2 (emitted.counter c.1)

/-- The number of the last line of a program. -/
def Program.lastNumber (program : Program) : Nat :=
  (program.getLast?.map (·.number)).getD 0

def Program.assemble (options : AssemblyOptions) (program : Program) :
    Except SourceError Assembled := do
  let implicit := options.implicitSection
  let survey ← Survey.ofProgram implicit program
  let symbols ← survey.symbols.declareAll program
  let (rows, emitted) ← survey.locations.restarted.emitLines implicit symbols program
  match mismatch? survey.locations emitted with
  | some e => throw ⟨program.lastNumber, e⟩
  | none => return .ofRows survey symbols rows

def assemble (options : AssemblyOptions) (source : String) : Except SourceError Assembled := do
  let program ← Program.read source
  program.assemble options

end Toolchain32
