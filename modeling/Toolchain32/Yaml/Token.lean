import Toolchain32.Yaml.Error
import Toolchain32.Yaml.Style

/-!
# Tokens of YAML

The marks and scalars of a text. Indentation has become marks too: a block collection has a start
and an end, and a key has a mark before it also where the text shows none. A lexeme is a token with
its position, and `Lexed` is what reading the tokens of a text gives.
-/

namespace Toolchain32.Yaml

inductive Token
  | version (major minor : Nat)
  /-- What the handle of a tag stands for. -/
  | tagHandle (handle : String) (meaning : List UInt8)
  | documentStart
  | documentEnd
  | blockSequenceStart
  | blockMappingStart
  | blockEnd
  | flowSequenceStart
  | flowSequenceEnd
  | flowMappingStart
  | flowMappingEnd
  | blockEntry
  | flowEntry
  | key
  | value
  | alias (name : String)
  | anchor (name : String)
  | tag (handle : String) (suffix : List UInt8)
  | scalar (style : ScalarStyle) (text : String)
  | textEnd
  deriving DecidableEq, Repr

/-- A token, where it starts and where it stops. -/
structure Lexeme where
  token : Token
  start : Position
  stop : Position
  deriving DecidableEq, Repr

/-- A token that takes no place in the text. -/
def Lexeme.at (position : Position) (t : Token) : Lexeme := ⟨t, position, position⟩

/-- The tokens of a text up to its end, or up to an error. -/
structure Lexed where
  lexemes : List Lexeme
  ending : Except Error Position

namespace Lexed

/-- The next token. The end of the text is one, too; an error comes only behind the tokens. -/
def next (x : Lexed) : Except Error Lexeme :=
  match x.lexemes with
  | l :: _ => .ok l
  | [] => x.ending.map fun position => .at position .textEnd

/-- What follows the next token. -/
def behind (x : Lexed) : Lexed := { x with lexemes := x.lexemes.drop 1 }

end Lexed

end Toolchain32.Yaml
