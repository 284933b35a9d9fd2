import Toolchain32.ErrorKind

/-!
# Syntax errors

What can be wrong with one line of assembly, the kind of each fault and its wording.
-/

namespace Toolchain32

/-- What an argument should have been. -/
inductive Expected
  | sectionName | literal | symbol | register | controlRegister | literalOrSymbol
  deriving DecidableEq, Repr

def Expected.name : Expected → String
  | sectionName => "section"
  | literal => "literal"
  | symbol => "symbol"
  | register => "register"
  | controlRegister => "Csr"
  | literalOrSymbol => "literal or symbol"

inductive SyntaxError
  | unknownOperation (name : String)
  | missingArgument
  | extraArgument
  | malformedArgument (text : String) (expected : Expected)
  /-- A control register where a general one belongs. -/
  | misplacedControlRegister (text : String)
  | storeIntoImmediate (text : String)
  | symbolicDisplacement (name : String)
  | literalRange (text : String)
  | displacementRange (value : Int)
  | negativeSkip (value : Int)
  deriving DecidableEq, Repr

namespace SyntaxError

def message : SyntaxError → String
  | unknownOperation name => s!"Unknown operation: \x60{name}\x60"
  | missingArgument => "More argument required"
  | extraArgument => "Too many arguments"
  | malformedArgument text expected => s!"Cannot parse \x60{text}\x60 as {expected.name}"
  | misplacedControlRegister text =>
    s!"Control register \x60{text}\x60 is only accessible with csrrd and csrwr"
  | storeIntoImmediate text => s!"Cannot store into an immediate operand \x60{text}\x60"
  | symbolicDisplacement name => s!"Symbol \x60{name}\x60 cannot be used as a displacement"
  | literalRange text => s!"Literal \x60{text}\x60 does not fit in 32 bits"
  | displacementRange value => s!"Displacement {value} is outside of [-2048, 2047]"
  | negativeSkip value => s!"Negative skip size: {value}"

def kind : SyntaxError → ErrorKind
  | literalRange _ | displacementRange _ | negativeSkip _ => .range
  | _ => .wording

end SyntaxError

end Toolchain32
