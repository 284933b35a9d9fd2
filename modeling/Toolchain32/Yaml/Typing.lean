import Toolchain32.Yaml.Error
import Toolchain32.Yaml.Style
import Toolchain32.Yaml.Tag

/-!
# Types of scalars

What a scalar of a document is. A tag of the core schema asks for a type, and any other one for a
text. Without a tag, or with a local one, a plain scalar is what it is spelled like and another one
is a text.
-/

namespace Toolchain32.Yaml

namespace Scalar

/-- A scalar whose tag says nothing of its type. -/
def ofStyle (style : ScalarStyle) (s : String) : Scalar :=
  if style = .plain then ofPlain s else text s

/-- The scalar that is asked for, if the text spells one. -/
def orWrong (s : String) (expected : String) (found : Option Scalar) : Except Misfit Scalar :=
  match found with
  | some scalar => .ok scalar
  | none => .error (.wrongValue (.scalar (text s)) expected)

/-- The tags of the core schema that ask for a type; any other one asks for a text. -/
def ofTag (tag : Tag) (s : String) : Except Misfit Scalar :=
  if tag = Tag.core "bool" then orWrong s "a boolean" ((bool? s).map bool)
  else if tag = Tag.core "int" then orWrong s "an integer" ((integer? s.toList).map integer)
  else if tag = Tag.core "float" then
    orWrong s "a float" ((special? s).orElse fun _ => real? s.toList)
  else if tag = Tag.core "null" then
    orWrong s "null" (if isNull s && s != "" then some null else none)
  else .ok (text s)

def ofNode (tag : Option Tag) (style : ScalarStyle) (s : String) : Except Misfit Scalar :=
  match tag with
  | some t => if t.isLocal then .ok (ofStyle style s) else ofTag t s
  | none => .ok (ofStyle style s)

end Scalar

end Toolchain32.Yaml
