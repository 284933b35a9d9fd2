import Toolchain32.Yaml.Error
import Toolchain32.Yaml.Style
import Toolchain32.Yaml.Tag

/-!
# Nodes

The tree of a document. A handle has become what it stands for, the name of an alias has become a
slot, and what is left out is an empty plain scalar. Where the text can no longer be read, the tree
ends with a missing node.
-/

namespace Toolchain32.Yaml

/-- The position of a node is that of its tag or its anchor if it has one. -/
inductive Node
  | scalar (position : Position) (tag : Option Tag) (style : ScalarStyle) (text : String)
  | sequence (position : Position) (tag : Option Tag) (items : List Node)
  | mapping (position : Position) (tag : Option Tag) (entries : List (Node × Node))
  | alias (position : Position) (slot : Nat)
  /-- Nothing is known from here on. -/
  | missing (e : Error)

/-- A tree, the nodes that slots stand for (of several nodes of a slot, the first one), the error
that ends the document before its end, and whether something follows the document. -/
structure Document where
  root : Node
  anchored : List (Nat × Node)
  failure : Option Error
  isFollowed : Bool

namespace Node

def empty (position : Position) (tag : Option Tag) : Node := scalar position tag .plain ""

/-- Keys and values that stand by turns. -/
def pairs : List Node → List (Node × Node)
  | key :: value :: rest => (key, value) :: pairs rest
  | _ => []

end Node

end Toolchain32.Yaml
