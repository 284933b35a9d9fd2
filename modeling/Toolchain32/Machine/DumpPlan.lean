import Toolchain32.Entries
import Toolchain32.Machine.Dump
import Toolchain32.Yaml.Value

/-!
# Dump plans as files

A dump plan is read from a YAML mapping of addresses to points. A point is a mapping that may say
whether the stack is shown (`stack`) and which words of memory (`heap`); other fields are ignored.
-/

namespace Toolchain32

namespace DumpPlan

/-- An unsigned integer as a typed scalar. -/
def natural? (text : String) : Option Nat :=
  let s := text.toList
  let digits := match s with
    | '+' :: rest => rest
    | _ => s
  if Yaml.Scalar.hasLeadingZero s then none else Yaml.Scalar.magnitude? digits

/-- A word. Another unsigned integer of 64 bits is a wrong value rather than a wrong type. -/
def word (d : Yaml.Document) (path : Yaml.Path) (n : Yaml.Node) : Yaml.Walk Word := do
  let n ← d.follow n
  match (Yaml.Document.typedText? (Yaml.Tag.core "int") n).bind natural?, n with
  | some value, .scalar position .. =>
    if value < 0x100000000 then return UInt32.ofNat value
    else if value < 0x10000000000000000 then
      throw (.misfit path (.wrongValue (.scalar (.integer value)) "u32") position)
    else Yaml.Document.refuse path "u32" n
  | _, _ => Yaml.Document.refuse path "u32" n

def flag (d : Yaml.Document) (path : Yaml.Path) (n : Yaml.Node) : Yaml.Walk Bool := do
  let n ← d.follow n
  match (Yaml.Document.typedText? (Yaml.Tag.core "bool") n).bind Yaml.Scalar.bool? with
  | some b => return b
  | none => Yaml.Document.refuse path "a boolean" n

/-- The fields of a point that were found so far. -/
structure PointFields where
  showsStack : Option Bool
  words : Option (List Word)
  deriving DecidableEq, Repr

/-- One more entry of a point at a position. A field may stand once. -/
def PointFields.enter (d : Yaml.Document) (path : Yaml.Path) (position : Yaml.Position)
    (f : PointFields) (entry : Yaml.Node × Yaml.Node) : Yaml.Walk PointFields := do
  let name ← d.text path "field identifier" entry.1
  let path' := path.enter entry.1
  let repeated : Yaml.Walk PointFields := throw (.misfit path (.repeatedField name) position)
  if name = "stack" then
    if f.showsStack.isSome then repeated
    else return { f with showsStack := some (← flag d path' entry.2) }
  else if name = "heap" then
    if f.words.isSome then repeated
    else
      let items ← d.items path' entry.2
      return { f with words := some (← items.mapM fun (path, n) => word d path n) }
  else return f

def point (d : Yaml.Document) (path : Yaml.Path) (n : Yaml.Node) : Yaml.Walk DumpPoint := do
  let (position, entries) ← d.entries path "struct Config" n
  let fields ← entries.foldlM (PointFields.enter d path position) ⟨none, none⟩
  return ⟨fields.showsStack.getD false, fields.words.getD []⟩

def readPoints (text : String) : Except Yaml.Error (List (Word × DumpPoint)) :=
  let d := Yaml.Document.read text
  d.walk do
    let (_, entries) ← d.entries .root "a map" d.root
    return ofEntries (← entries.mapM fun (key, value) => do
      let address ← word d .root key
      return (address, ← point d (Yaml.Path.root.enter key) value))

/-- The plan of a file. -/
def read (fileName text : String) : Except Yaml.Error DumpPlan :=
  (readPoints text).map fun points => ⟨fileName, points⟩

end DumpPlan

end Toolchain32
