import Toolchain32.Text.Quoted
import Toolchain32.Yaml.Fault
import Toolchain32.Yaml.Scalar

/-!
# Errors of YAML texts

A text is refused for a fault of its spelling, for an alias that leads nowhere or too far, or for a
node that does not fit what is asked for. A misfit tells the way to its node.
-/

namespace Toolchain32.Yaml

/-- The way from the root to a node. -/
inductive Path
  | root
  | value (parent : Path) (key : String)
  | item (parent : Path) (index : Nat)
  /-- The value of a key that is no scalar. -/
  | unnamed (parent : Path)
  deriving DecidableEq, Repr

namespace Path

/-- Keys with points between them, and indices in brackets. -/
def text : Path → String
  | root => "."
  | value root key => key
  | value parent key => parent.text ++ "." ++ key
  | item parent index => parent.text ++ s!"[{index}]"
  | unnamed root => "?"
  | unnamed parent => parent.text ++ ".?"

end Path

/-- What a node is, as an error names it. -/
inductive Found
  | scalar (s : Scalar)
  | sequence
  | mapping
  deriving DecidableEq, Repr

namespace Found

/-- An integer, with the size that it takes where 64 bits do not hold it. -/
def integerText (i : Int) : String :=
  let width :=
    if 0x10000000000000000 ≤ i then " as u128"
    else if i < -0x8000000000000000 then " as i128"
    else ""
  s!"integer \x60{i}\x60" ++ width

def text : Found → String
  | scalar .null => "unit value"
  | scalar (.bool b) => s!"boolean \x60{b}\x60"
  | scalar (.integer i) => integerText i
  | scalar (.real isNegative b) => s!"floating point \x60{b.printPositional isNegative}\x60"
  | scalar (.infinity isNegative) =>
    "floating point \x60" ++ (if isNegative then "-inf" else "inf") ++ "\x60"
  | scalar .notANumber => "floating point \x60NaN\x60"
  | scalar (.text s) => "string " ++ Text.quoted s
  | sequence => "sequence"
  | mapping => "map"

end Found

/-- What is wrong with a node for the one who asks for it. -/
inductive Misfit
  | wrongType (found : Found) (expected : String)
  | wrongValue (found : Found) (expected : String)
  | repeatedField (name : String)
  /-- A key stands twice in a mapping; the key is told if it is a scalar. -/
  | repeatedKey (key : Option Scalar)
  deriving DecidableEq, Repr

namespace Misfit

def keyText : Scalar → String
  | .null => "null key"
  | .bool b => s!"key \x60{b}\x60"
  | .text s => "key " ++ Text.quoted s
  | s => "key " ++ s.numberText?.getD ""

def message : Misfit → String
  | wrongType found expected => s!"invalid type: {found.text}, expected {expected}"
  | wrongValue found expected => s!"invalid value: {found.text}, expected {expected}"
  | repeatedField name => s!"duplicate field \x60{name}\x60"
  | repeatedKey (some key) => "duplicate entry with " ++ keyText key
  | repeatedKey none => "duplicate entry in YAML map"

end Misfit

inductive Error
  /-- A character that no text may hold, with the count of octets before it. -/
  | unreadable (offset : Nat)
  | fault (f : Fault)
  | unknownAlias (position : Position)
  | severalDocuments
  /-- Collections lie too deep in each other; the position is that of the first one that does. -/
  | tooDeep (position : Position)
  | tooManyAliases
  | misfit (path : Path) (m : Misfit) (position : Position)
  deriving DecidableEq, Repr

namespace Error

def message : Error → String
  | unreadable offset =>
    "control characters are not allowed" ++ if offset = 0 then "" else s!" at position {offset}"
  | fault f => f.message
  | unknownAlias position => "unknown anchor" ++ position.locate
  | severalDocuments =>
    "deserializing from YAML containing more than one document is not supported"
  | tooDeep position => "recursion limit exceeded" ++ position.locate
  | tooManyAliases => "repetition limit exceeded"
  | misfit path m position =>
    (if path.text = "." then "" else path.text ++ ": ") ++ m.message ++ position.locate

end Error

end Toolchain32.Yaml
