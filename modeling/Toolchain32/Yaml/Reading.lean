import Toolchain32.Entries
import Toolchain32.Yaml.Node
import Toolchain32.Yaml.Token

/-!
# Steps of reading

A text is read token by token, and its tree grows with it. The open collections are kept apart from
the complete nodes, so that a reading that fails leaves a tree up to its failure: in every open
collection the next part is missing.

An anchor takes the slot whose number is the count of the names before it. A name that comes back
takes a new slot without raising that count, so the next new name takes the same one; the anchor
that starts last is the one that the slot stands for.
-/

namespace Toolchain32.Yaml

/-- A collection that is not yet complete: its position and tag, the place of its anchor, and its
parts so far, backwards. Those of a mapping are keys and values by turns. -/
structure Frame where
  isMapping : Bool
  position : Position
  tag : Option Tag
  anchorPlace : Option Nat
  parts : List Node

namespace Frame

def node (f : Frame) : Node :=
  if f.isMapping then .mapping f.position f.tag (Node.pairs f.parts.reverse)
  else .sequence f.position f.tag f.parts.reverse

/-- A collection whose next part is missing, be it a key or a value. -/
def cutOff (f : Frame) (e : Error) : Frame :=
  { f with parts := .missing e :: .missing e :: f.parts }

end Frame

/-- What is left of a text that is read, the slots of the names so far, the nodes behind anchors
with their slots in the order of their starts, what the handles of tags stand for, the open
collections from the innermost outwards, and the root once it is complete. -/
structure TokenReader where
  lexed : Lexed
  slots : List (String × Nat)
  anchored : Array (Nat × Node)
  handles : List (String × List UInt8)
  frames : List Frame
  root : Option Node

namespace TokenReader

def start (x : Lexed) : TokenReader := ⟨x, [], #[], [], [], none⟩

/-- A complete node becomes a part of the innermost open collection, or the root. -/
def put (r : TokenReader) (n : Node) : TokenReader :=
  match r.frames with
  | f :: outer => { r with frames := { f with parts := n :: f.parts } :: outer }
  | [] => { r with root := some n }

/-- The node behind the anchor at a place. -/
def record (r : TokenReader) (place : Option Nat) (n : Node) : TokenReader :=
  match place with
  | some i => { r with anchored := r.anchored.modify i fun e => (e.1, n) }
  | none => r

def putAt (r : TokenReader) (place : Option Nat) (n : Node) : TokenReader :=
  (r.record place n).put n

/-- All open collections end where their next part is missing. -/
def cutOff (e : Error) : Nat → TokenReader → TokenReader
  | 0, r => r
  | n + 1, r =>
    match r.frames with
    | f :: outer => cutOff e n ({ r with frames := outer }.putAt f.anchorPlace (f.cutOff e).node)
    | [] => r

end TokenReader

/-- A reading step. One that fails leaves what was read before. -/
abbrev Reading := ExceptT Error (StateM TokenReader)

namespace Node

def peek : Reading Lexeme := do
  match (← get).lexed.next with
  | .ok l => return l
  | .error e => throw e

def drop : Reading Unit := modify fun r => { r with lexed := r.lexed.behind }

def put (n : Node) : Reading Unit := modify fun r => r.put n

def fault {α : Type} (p : Problem) (position : Position) (context : Option (Context × Position)) :
    Reading α :=
  throw (.fault ⟨p, position, context⟩)

/-- A bound on the depth of calls is reached. -/
def exhausted {α : Type} : Reading α := do throw (.tooDeep (← peek).start)

def standardHandles : List (String × List UInt8) :=
  [("!", [Tag.mark.toUInt8]), ("!!", (Tag.core "").octets)]

/-- What stands before the content of a node, and where that starts. -/
structure Properties where
  start : Position
  anchor : Option String
  tag : Option Tag

def readAnchor? : Reading (Option String) := do
  match (← peek).token with
  | .anchor name => drop; return some name
  | _ => return none

/-- A tag as it stands in the text. -/
structure WrittenTag where
  position : Position
  handle : String
  suffix : List UInt8

def readTag? : Reading (Option WrittenTag) := do
  let l ← peek
  match l.token with
  | .tag handle suffix => drop; return some ⟨l.start, handle, suffix⟩
  | _ => return none

/-- The tag of a node that starts at a position. -/
def resolveTag (start : Position) (t : WrittenTag) : Reading Tag := do
  if t.handle.isEmpty then return ⟨t.suffix⟩
  else match ((← get).handles ++ standardHandles).lookup t.handle with
    | some meaning => return ⟨meaning ++ t.suffix⟩
    | none => fault .undefinedHandle t.position (some (.node, start))

/-- The anchor and the tag of a node, in either order, and the token behind them. -/
def readProperties : Reading (Properties × Lexeme) := do
  let start := (← peek).start
  let first ← readAnchor?
  let tag ← readTag?
  let anchor ← if first.isSome then pure first else readAnchor?
  let next ← peek
  match tag with
  | some t => return (⟨start, anchor, some (← resolveTag start t)⟩, next)
  | none => return (⟨start, anchor, none⟩, next)

/-- An anchor takes its slot before its node is read; the result is its place among the anchors. -/
def reserve (p : Properties) : Reading (Option Nat) := do
  match p.anchor with
  | some name =>
    let r ← get
    let slot := r.slots.length
    set { r with
      slots := putEntry name slot r.slots
      anchored := r.anchored.push (slot, empty p.start none) }
    return some r.anchored.size
  | none => return none

def putScalar (p : Properties) (style : ScalarStyle) (text : String) : Reading Unit := do
  let place ← reserve p
  modify fun r => r.putAt place (scalar p.start p.tag style text)

/-- A collection starts. -/
def openFrame (p : Properties) (isMapping : Bool) : Reading Unit := do
  let place ← reserve p
  modify fun r => { r with frames := ⟨isMapping, p.start, p.tag, place, []⟩ :: r.frames }

/-- The innermost open collection is complete. -/
def closeFrame : Reading Unit :=
  modify fun r =>
    match r.frames with
    | f :: outer => { r with frames := outer }.putAt f.anchorPlace f.node
    | [] => r

end Node

end Toolchain32.Yaml
