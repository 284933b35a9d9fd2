import Toolchain32.Source.Error
import Toolchain32.Word

/-!
# Assembly errors

What can be wrong with a source as a whole. A `SourceError` also names the line.
-/

namespace Toolchain32

inductive AssemblyError
  | malformedLine (e : SyntaxError)
  | redefinedSymbol (name : String)
  | labelOutsideSection (name : String)
  | contentOutsideSection
  /-- An external symbol that the source defines itself. -/
  | externalDefined (name : String)
  /-- A section declared as a global or external symbol. -/
  | sectionBinding (name : String)
  | undefinedSymbol (name : String)
  /-- A section that outgrows the address space by so many more bytes. -/
  | sectionOverflow (sectionName : String) (bytes : Nat)
  /-- A skip that cannot be rounded up to whole words. -/
  | skipOverflow (bytes : Word)
  /-- A section whose emitted size is not the surveyed one. -/
  | passMismatch (sectionName : String) (surveyed emitted : Nat)
  deriving DecidableEq, Repr

namespace AssemblyError

def message : AssemblyError → String
  | malformedLine e => e.message
  | redefinedSymbol name => s!"Re-defined symbol: \x60{name}\x60"
  | labelOutsideSection name => s!"Label \x60{name}\x60 is outside of any section"
  | contentOutsideSection => "Code or data is outside of any section"
  | externalDefined name => s!"Extern symbol \x60{name}\x60 is already defined in this file"
  | sectionBinding name => s!"Section \x60{name}\x60 cannot be declared global or extern"
  | undefinedSymbol name => s!"Undefined symbol used: \x60{name}\x60"
  | sectionOverflow name bytes => (SyntaxError.literalRange s!"{name}+{bytes}").message
  | skipOverflow bytes => (SyntaxError.literalRange s!"{bytes.toNat}").message
  | passMismatch name surveyed emitted =>
    s!"Section \x60{name}\x60 is {surveyed} bytes in pass 1 but {emitted} bytes in pass 2"

def kind : AssemblyError → ErrorKind
  | malformedLine e => e.kind
  | sectionOverflow .. | skipOverflow _ => .range
  | _ => .wording

end AssemblyError

/-- An assembly error and the number of the source line it belongs to, counted from one. -/
structure SourceError where
  line : Nat
  error : AssemblyError
  deriving DecidableEq, Repr

namespace SourceError

def message (e : SourceError) : String := s!"line {e.line}: " ++ e.error.message

def kind (e : SourceError) : ErrorKind := e.error.kind

end SourceError

end Toolchain32
