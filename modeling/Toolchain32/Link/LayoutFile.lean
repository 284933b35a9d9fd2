import Toolchain32.Entries
import Toolchain32.Link.Placement
import Toolchain32.Yaml.Value

/-!
# Layout files

A layout file is a YAML mapping of section names to addresses. An address is an integer, or a text
that is read like the address of a placement.
-/

namespace Toolchain32

namespace LayoutFile

/-- The address that a value stands for, if it does. -/
def address? : Yaml.Value → Option Word
  | .scalar (.text s) => Placement.readAddress? s.toList
  | .scalar (.integer i) => if 0 ≤ i && i < 0x100000000 then some (UInt32.ofNat i.toNat) else none
  | _ => none

/-- How deep the collections of a value may lie in each other. -/
def greatestDepth : Nat := 127

/-- The sections with their values in the order of their first entries; of several values of a
section the last one counts. -/
def entries (text : String) : Except Yaml.Error (List (String × Yaml.Value)) :=
  let d := Yaml.Document.read text
  d.walk do
    let (_, entries) ← d.entries .root "a map" d.root
    return ofEntries (← entries.mapM fun (key, node) => do
      let name ← d.text .root "a string" key
      return (name, ← Yaml.Value.read d greatestDepth (Yaml.Path.root.enter key) node))

def placement (name : String) (value : Yaml.Value) : Except LinkError Placement :=
  match address? value with
  | some address => .ok ⟨name, address⟩
  | none => .error (.invalidPlacement (name ++ "@" ++ value.describe))

def read (path text : String) : Except LinkError (List Placement) :=
  match entries text with
  | .error e => .error (.malformedLayout path e)
  | .ok entries => entries.mapM fun e => placement e.1 e.2

end LayoutFile

end Toolchain32
