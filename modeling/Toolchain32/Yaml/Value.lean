import Toolchain32.Text.Quoted
import Toolchain32.Yaml.Document
import Toolchain32.Yaml.Scalar

/-!
# Values

A node with its scalars typed and its aliases followed. A plain scalar has its type by its spelling
and another one is a text; a tag of the core schema asks for a type, and a local tag stays with the
value. `Value.describe` writes a value with the name of its type.
-/

namespace Toolchain32.Yaml

inductive Value
  | scalar (s : Scalar)
  | sequence (items : List Value)
  | mapping (entries : List (Value × Value))
  | tagged (tag : String) (value : Value)

namespace Scalar

/-- Integers are kept in 64 bits, with or without a sign bit. -/
def isBounded : Scalar → Bool
  | integer i => -0x8000000000000000 ≤ i && i < 0x10000000000000000
  | _ => true

/-- Equality, in which zeros are equal whatever their signs are. -/
def sameAs : Scalar → Scalar → Bool
  | real s b, real t c => (b.significand = 0 && c.significand = 0) || (s = t && b = c)
  | s, t => s = t

/-- `String("…")`, `Number(…)` and so on. -/
def describe : Scalar → String
  | null => "Null"
  | bool b => s!"Bool({b})"
  | text s => "String(" ++ Text.quoted s ++ ")"
  | s => "Number(" ++ s.numberText?.getD "" ++ ")"

/-- A scalar as a key stands without the name of its type. -/
def describeKey : Scalar → String
  | null => "Null"
  | bool b => toString b
  | text s => Text.quoted s
  | s => s.numberText?.getD ""

end Scalar

namespace Value

def commaSeparated (parts : List String) : String := String.intercalate ", " parts

mutual

def describe : Value → String
  | scalar s => s.describe
  | sequence items => "Sequence [" ++ commaSeparated (describeItems items) ++ "]"
  | mapping entries => "Mapping \x7b" ++ commaSeparated (describeEntries entries) ++ "\x7d"
  | tagged tag value =>
    "TaggedValue \x7b tag: !" ++ tag ++ ", value: " ++ value.describe ++ " \x7d"

def describeItems : List Value → List String
  | [] => []
  | v :: rest => v.describe :: describeItems rest

def describeEntries : List (Value × Value) → List String
  | [] => []
  | (k, v) :: rest => (k.describeKey ++ ": " ++ v.describe) :: describeEntries rest

def describeKey : Value → String
  | scalar s => s.describeKey
  | v => v.describe

end

mutual

/-- Equality, in which the order of the entries of a mapping does not count. -/
def sameAs : Value → Value → Bool
  | scalar s, scalar t => s.sameAs t
  | sequence vs, sequence ws => sameItems vs ws
  | mapping es, mapping fs => es.length == fs.length && areEntriesOf fs es
  | tagged s v, tagged t w => s == t && v.sameAs w
  | _, _ => false

def sameItems : List Value → List Value → Bool
  | [], [] => true
  | v :: vs, w :: ws => v.sameAs w && sameItems vs ws
  | _, _ => false

/-- Whether all entries are in a mapping. -/
def areEntriesOf (fs : List (Value × Value)) : List (Value × Value) → Bool
  | [] => true
  | (k, v) :: rest => (fs.any fun f => k.sameAs f.1 && v.sameAs f.2) && areEntriesOf fs rest

end

def withTag (name : Option String) (v : Value) : Value :=
  match name with
  | some name => tagged name v
  | none => v

/-- The name of the tag of a value, if the tag stays with it. -/
def tagName (tag : Option Tag) : Option String := tag.bind (·.localName?)

/-- The value of a key that stands twice, if it is a scalar. -/
def asKey? : Value → Option Scalar
  | scalar s => some s
  | _ => none

/-- The first key that is the same as another one. -/
def findKey? (entries : List (Value × Value)) (key : Value) : Option Value :=
  (entries.find? fun e => key.sameAs e.1).map (·.1)

/-- The value of a node whose collections lie at most `depth` deep in each other. It is refused for
a wrong tag, for a number that is too large, and for a mapping that has a key twice. Two keys with
different tags are different keys. -/
def read (d : Document) (depth : Nat) (path : Path) (n : Node) : Walk Value := do
  match depth, ← d.follow n with
  | _, .scalar position tag style text =>
    let s ← Document.scalar path position tag style text
    if s.isBounded then return withTag (tagName tag) (scalar s)
    else throw (.misfit path (.wrongType (.scalar s) "any YAML value") position)
  | depth + 1, .sequence _ tag items =>
    let items ← items.zipIdx.mapM fun (n, i) => read d depth (path.item i) n
    return withTag (tagName tag) (sequence items)
  | depth + 1, .mapping position tag entries =>
    let entries ← entries.foldlM (fun before (keyNode, node) => do
      let key ← read d depth path keyNode
      match findKey? before key with
      | some first => throw (.misfit path (.repeatedKey first.asKey?) position)
      | none => return before ++ [(key, ← read d depth (path.enter keyNode) node)]) []
    return withTag (tagName tag) (mapping entries)
  | 0, .sequence position .. => throw (.tooDeep position)
  | 0, .mapping position .. => throw (.tooDeep position)
  | _, .alias position _ => throw (.unknownAlias position)
  | _, .missing e => throw e

end Value

end Toolchain32.Yaml
