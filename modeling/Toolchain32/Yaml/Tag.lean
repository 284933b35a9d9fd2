/-!
# Tags

A tag names the type of a node. It is kept as octets, because what it encodes need not be text. A
local tag begins with an exclamation mark, and `Tag.localName?` is the name that it goes by.
-/

namespace Toolchain32.Yaml

structure Tag where
  octets : List UInt8
  deriving DecidableEq, Repr

namespace Tag

def ofString (s : String) : Tag := ⟨s.toUTF8.toList⟩

def text? (t : Tag) : Option String := String.fromUTF8? ⟨t.octets.toArray⟩

/-- A tag of the core schema. -/
def core (name : String) : Tag := ofString ("tag:yaml.org,2002:" ++ name)

def mark : Char := '!'

def isLocal (t : Tag) : Bool := t.octets.head? == some mark.toUInt8

/-- A name without the mark in front of it, if more than the mark is there. -/
def withoutMark (name : String) : String :=
  match name.toList with
  | c :: d :: rest => if c == mark then String.ofList (d :: rest) else name
  | _ => name

/-- The name of a local tag. A second mark does not belong to it either, so that a tag with two
marks goes by the same name as with one; a tag that is not text has no name. -/
def localName? (t : Tag) : Option String :=
  if t.isLocal then t.text?.map fun name => withoutMark (withoutMark name) else none

end Tag

end Toolchain32.Yaml
