import Toolchain32.Yaml.Parser
import Toolchain32.Yaml.Typing

/-!
# Walking through documents

A document is read from its root, and an alias leads to the node behind its anchor. The aliases that
are followed on a walk are counted: there may be a hundred for every part of the document. A walk
fails where the document does not fit it, and after the walk for what is wrong with the rest of the
text.
-/

namespace Toolchain32.Yaml

namespace Node

/-- Whether a node stands for itself. -/
def isPresent : Node → Bool
  | .alias .. | .missing _ => false
  | _ => true

mutual

/-- The count of the known parts of a tree: scalars, aliases, and the starts and ends of
collections. -/
def size : Node → Nat
  | scalar .. => 1
  | sequence _ _ items => itemsSize items + 1
  | mapping _ _ entries => entriesSize entries + 1
  | .alias .. => 1
  | missing _ => 0

/-- The count with the end of the sequence, which is not known where an item is missing. -/
def itemsSize : List Node → Nat
  | [] => 1
  | missing _ :: _ => 0
  | n :: rest => n.size + itemsSize rest

def entriesSize : List (Node × Node) → Nat
  | [] => 1
  | (k, missing _) :: _ => k.size
  | (k, n) :: rest => k.size + n.size + entriesSize rest

end

end Node

/-- The way to the value of a key, by the scalar that stands there as the key. -/
def Path.enter (path : Path) : Node → Path
  | .scalar _ _ _ key => path.value key
  | _ => path.unnamed

/-- A step of a walk, with the count of aliases that may still be followed. -/
abbrev Walk := StateT Nat (Except Error)

namespace Document

/-- What a walk from the root finds. -/
def walk {α : Type} (d : Document) (w : Walk α) : Except Error α := do
  let (a, _) ← w.run (100 * d.root.size)
  match d.failure with
  | some e => .error e
  | none => if d.isFollowed then .error .severalDocuments else .ok a

/-- The node itself, or the one that an alias leads to. -/
def follow (d : Document) (n : Node) : Walk Node := do
  match n with
  | .alias position slot =>
    match ← get with
    | 0 => throw .tooManyAliases
    | left + 1 =>
      set left
      match d.anchored.lookup slot with
      | some n => return n
      | none => throw (.unknownAlias position)
  | .missing e => throw e
  | _ => return n

theorem follow_of_isPresent (d : Document) : {n : Node} → n.isPresent → d.follow n = pure n
  | .scalar .., _ => rfl
  | .sequence .., _ => rfl
  | .mapping .., _ => rfl

/-- What a scalar is: its tag asks for a type, or its spelling shows it. -/
def scalar (path : Path) (position : Position) (tag : Option Tag) (style : ScalarStyle)
    (text : String) : Walk Scalar :=
  match Scalar.ofNode tag style text with
  | .ok s => return s
  | .error m => throw (.misfit path m position)

/-- Fails for a node that is not of the type that is asked for. -/
def refuse {α : Type} (path : Path) (expected : String) : Node → Walk α
  | .scalar position tag style text => do
    let s ← scalar path position tag style text
    throw (.misfit path (.wrongType (.scalar s) expected) position)
  | .sequence position .. => throw (.misfit path (.wrongType .sequence expected) position)
  | .mapping position .. => throw (.misfit path (.wrongType .mapping expected) position)
  | .alias position _ => throw (.unknownAlias position)
  | .missing e => throw e

/-- The entries of a mapping; an empty plain scalar has none. -/
def entries (d : Document) (path : Path) (expected : String) (n : Node) :
    Walk (Position × List (Node × Node)) := do
  match ← d.follow n with
  | .mapping position _ entries => return (position, entries)
  | .scalar position _ .plain "" => return (position, [])
  | n => refuse path expected n

/-- The items of a sequence with the ways to them; an empty plain scalar has none. -/
def items (d : Document) (path : Path) (n : Node) : Walk (List (Path × Node)) := do
  match ← d.follow n with
  | .sequence _ _ items => return items.zipIdx.map fun (n, i) => (path.item i, n)
  | .scalar _ _ .plain "" => return []
  | n => refuse path "a sequence" n

def text (d : Document) (path : Path) (expected : String) (n : Node) : Walk String := do
  match ← d.follow n with
  | .scalar _ _ _ s => return s
  | n => refuse path expected n

/-- The text of a scalar that may be of a type: a plain one, or a literal one that has its tag. -/
def typedText? (type : Tag) : Node → Option String
  | .scalar _ tag style s =>
    if style = .plain || (style = .literal && tag = some type) then some s else none
  | _ => none

end Document

end Toolchain32.Yaml
