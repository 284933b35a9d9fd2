import Toolchain32.Object.Parser
import Toolchain32.Yaml.Error

/-!
# Link errors
-/

namespace Toolchain32

inductive LinkError
  /-- A name bound global by two artifacts. -/
  | duplicateGlobal (name first second : String)
  /-- An external name of an artifact that no artifact binds global. -/
  | unresolvedExternal (name artifact : String)
  | undefinedSymbol (name : String)
  | duplicatePlacement (sectionName : String)
  | sectionNotFound (sectionName : String)
  | placementOverlap (sectionName : String) (address : Word) (previous : String) (previousEnd : Nat)
  | addressOverflow (sectionName : String) (start size : Nat)
  | relocationOutOfRange (sectionName : String) (offset : Word) (artifact : String)
  | invalidPlacement (text : String)
  | malformedObject (artifact : String) (e : Object.FormatError)
  | malformedLayout (path : String) (e : Yaml.Error)
  deriving DecidableEq, Repr

namespace LinkError

open Text

def message : LinkError → String
  | duplicateGlobal name first second =>
    s!"Symbol \x60{name}\x60 is defined global in both {first} and {second}"
  | unresolvedExternal name artifact =>
    s!"Extern symbol \x60{name}\x60 used in {artifact} is not defined global in any object"
  | undefinedSymbol name => s!"Undefined symbol: \x60{name}\x60"
  | duplicatePlacement name => s!"Section \x60{name}\x60 is placed more than once"
  | sectionNotFound name => s!"Section not found: \x60{name}\x60"
  | placementOverlap name address previous previousEnd =>
    s!"Section \x60{name}\x60 at 0x{upperHex 8 address.toNat} overlaps " ++
      s!"section \x60{previous}\x60 ending at 0x{upperHex 8 previousEnd}"
  | addressOverflow name start size =>
    s!"Address space overflow: section \x60{name}\x60 of {size} bytes at 0x{upperHex 8 start}"
  | relocationOutOfRange name offset artifact =>
    s!"Relocation at offset 0x{upperHex 8 offset.toNat} is outside " ++
      s!"section \x60{name}\x60 in {artifact}"
  | invalidPlacement text =>
    s!"Invalid placement \x60{text}\x60: expected <section>@<hex address>"
  | malformedObject artifact e => s!"Malformed object {artifact}: " ++ e.message
  | malformedLayout path e => s!"Malformed layout {path}: " ++ e.message

def kind : LinkError → ErrorKind
  | addressOverflow .. => .range
  | invalidPlacement _ => .wording
  | malformedObject .. | malformedLayout .. => .format
  | _ => .link

end LinkError

end Toolchain32
