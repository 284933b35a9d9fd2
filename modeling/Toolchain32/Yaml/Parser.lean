import Toolchain32.Yaml.Lexer
import Toolchain32.Yaml.Reading

/-!
# Reading documents

`Document.read` reads the first document of a text. Every function on the way takes a bound on the
depth of its calls, and the position of a collection is that of the token that starts it.
-/

namespace Toolchain32.Yaml

namespace Node

/-- Where a node stands: within a flow collection, in a block, or as an entry of a block mapping,
where a sequence needs no indentation of its own. -/
inductive Place
  | flow | block | mappingEntry
  deriving DecidableEq, Repr

/-- A node with an anchor or a tag may do without content. -/
def putContentless (place : Place) (p : Properties) (position : Position) : Reading Unit :=
  if p.anchor.isSome || p.tag.isSome then putScalar p .plain ""
  else
    fault .noContent position (some (if place = .flow then .flowNode else .blockNode, p.start))

/-- The comma between two parts of a flow collection. The first part has none before it, and the end
need not. -/
def passComma (stop : Token) (p : Problem) (context : Context × Position) (isFirst : Bool) :
    Reading Unit := do
  if !isFirst then
    let l ← peek
    if l.token = .flowEntry then drop
    else if l.token ≠ stop then fault p l.start (some context)

mutual

def read (depth : Nat) (place : Place) : Reading Unit := do
  match depth with
  | 0 => exhausted
  | depth + 1 =>
    let l ← peek
    match l.token with
    | .alias name =>
      drop
      match (← get).slots.lookup name with
      | some slot => put (.alias l.start slot)
      | none => throw (.unknownAlias l.start)
    | _ =>
      let (p, next) ← readProperties
      readContent depth place p next

/-- The content of a node, which begins with the next token. -/
def readContent (depth : Nat) (place : Place) (p : Properties) (next : Lexeme) : Reading Unit := do
  match depth with
  | 0 => exhausted
  | depth + 1 =>
    match next.token with
    | .scalar style text =>
      drop
      putScalar p style text
    | .flowSequenceStart =>
      drop
      openFrame p false
      readFlowSequence depth next.start true
    | .flowMappingStart =>
      drop
      openFrame p true
      readFlowMapping depth next.start true
    | .blockEntry =>
      if place = .mappingEntry then
        openFrame p false
        readLooseSequence depth
      else putContentless place p next.start
    | .blockSequenceStart =>
      if place = .flow then putContentless place p next.start
      else
        drop
        openFrame p false
        readBlockSequence depth next.start
    | .blockMappingStart =>
      if place = .flow then putContentless place p next.start
      else
        drop
        openFrame p true
        readBlockMapping depth next.start
    | _ => putContentless place p next.start

/-- A node, or before the given tokens an empty one at a position. -/
def readUnless (depth : Nat) (place : Place) (stops : List Token) (position : Position) :
    Reading Unit := do
  match depth with
  | 0 => exhausted
  | depth + 1 =>
    if stops.contains (← peek).token then put (empty position none) else read depth place

def readBlockSequence (depth : Nat) (position : Position) : Reading Unit := do
  match depth with
  | 0 => exhausted
  | depth + 1 =>
    let l ← peek
    match l.token with
    | .blockEnd =>
      drop
      closeFrame
    | .blockEntry =>
      drop
      readUnless depth .block [.blockEntry, .blockEnd] l.stop
      readBlockSequence depth position
    | _ => fault .noBlockEntry l.start (some (.blockSequence, position))

/-- The entries of a sequence at the column of the mapping around it. -/
def readLooseSequence (depth : Nat) : Reading Unit := do
  match depth with
  | 0 => exhausted
  | depth + 1 =>
    let l ← peek
    match l.token with
    | .blockEntry =>
      drop
      readUnless depth .block [.blockEntry, .key, .value, .blockEnd] l.stop
      readLooseSequence depth
    | _ => closeFrame

def readBlockMapping (depth : Nat) (position : Position) : Reading Unit := do
  match depth with
  | 0 => exhausted
  | depth + 1 =>
    let l ← peek
    match l.token with
    | .blockEnd =>
      drop
      closeFrame
    | .key =>
      drop
      readUnless depth .mappingEntry [.key, .value, .blockEnd] l.stop
      readBlockValue depth
      readBlockMapping depth position
    | _ => fault .noBlockKey l.start (some (.blockMapping, position))

/-- The value behind a key of a block mapping. -/
def readBlockValue (depth : Nat) : Reading Unit := do
  match depth with
  | 0 => exhausted
  | depth + 1 =>
    let l ← peek
    match l.token with
    | .value =>
      drop
      readUnless depth .mappingEntry [.key, .value, .blockEnd] l.stop
    | _ => put (empty l.start none)

/-- The value behind a key of a flow collection with the given end. -/
def readFlowValue (depth : Nat) (stop : Token) : Reading Unit := do
  match depth with
  | 0 => exhausted
  | depth + 1 =>
    let l ← peek
    match l.token with
    | .value =>
      drop
      readUnless depth .flow [.flowEntry, stop] (← peek).start
    | _ => put (empty l.start none)

/-- The key behind its mark in a flow sequence. Where it is left out, the token in its place is
passed with it. -/
def readFlowSequenceKey (depth : Nat) : Reading Unit := do
  match depth with
  | 0 => exhausted
  | depth + 1 =>
    let l ← peek
    match l.token with
    | .value | .flowEntry | .flowSequenceEnd =>
      drop
      put (empty l.stop none)
    | _ => read depth .flow

/-- An entry of a flow sequence, before it its comma unless it is the first one. An entry with the
mark of a key is a mapping of one entry. -/
def readFlowSequence (depth : Nat) (position : Position) (isFirst : Bool) : Reading Unit := do
  match depth with
  | 0 => exhausted
  | depth + 1 =>
    passComma .flowSequenceEnd .unseparatedItem (.flowSequence, position) isFirst
    let l ← peek
    match l.token with
    | .flowSequenceEnd =>
      drop
      closeFrame
    | .key =>
      openFrame ⟨l.start, none, none⟩ true
      drop
      readFlowSequenceKey depth
      readFlowValue depth .flowSequenceEnd
      closeFrame
      readFlowSequence depth position false
    | _ =>
      read depth .flow
      readFlowSequence depth position false

def readFlowMapping (depth : Nat) (position : Position) (isFirst : Bool) : Reading Unit := do
  match depth with
  | 0 => exhausted
  | depth + 1 =>
    passComma .flowMappingEnd .unseparatedEntry (.flowMapping, position) isFirst
    let l ← peek
    match l.token with
    | .flowMappingEnd =>
      drop
      closeFrame
    | .key =>
      drop
      readUnless depth .flow [.value, .flowEntry, .flowMappingEnd] (← peek).start
      readFlowValue depth .flowMappingEnd
      readFlowMapping depth position false
    | _ =>
      read depth .flow
      put (empty (← peek).start none)
      readFlowMapping depth position false

end

/-- The directives of a document: one version at most, and that one known, and no handle twice. -/
def readDirectives (hasVersion : Bool) : Nat → Reading Unit
  | 0 => exhausted
  | n + 1 => do
    let l ← peek
    match l.token with
    | .version major minor =>
      if hasVersion then fault .repeatedVersion l.start none
      else if major ≠ 1 || (minor ≠ 1 && minor ≠ 2) then
        fault .incompatibleVersion l.start none
      else
        drop
        readDirectives true n
    | .tagHandle handle meaning =>
      if ((← get).handles.lookup handle).isSome then fault .repeatedHandle l.start none
      else
        drop
        modify fun r => { r with handles := (handle, meaning) :: r.handles }
        readDirectives hasVersion n
    | _ => return ()

/-- Whether a document has no root before a token. -/
def endsDocument : Token → Bool
  | .version .. | .tagHandle .. | .documentStart | .documentEnd | .textEnd => true
  | _ => false

/-- A document behind its start. -/
def readRoot (depth : Nat) : Reading Unit := do
  let l ← peek
  if endsDocument l.token then put (empty l.start none) else read depth .block

/-- A document up to its last token, if one is there. Without a start it has no directives. -/
def readDocument (depth : Nat) : Reading Unit := do
  match (← peek).token with
  | .textEnd => return ()
  | .version .. | .tagHandle .. | .documentStart =>
    readDirectives false depth
    let l ← peek
    if l.token = .documentStart then
      drop
      readRoot depth
    else fault .noDocumentStart l.start none
  | _ => read depth .block
  let _ ← peek

end Node

namespace TokenReader

/-- Whether more than marks of its end follows a document. -/
def isFollowed (r : TokenReader) : Bool :=
  match r.lexed.ending with
  | .ok _ => !r.lexed.lexemes.all (·.token == .documentEnd)
  | .error _ => true

/-- The document that was read, up to a failure. A text without a document is an empty one. -/
def document (r : TokenReader) : Except Error Unit → Document
  | .ok () =>
    ⟨r.root.getD (.empty .start none), r.anchored.toList.reverse, none, r.isFollowed⟩
  | .error e =>
    let r := cutOff e r.frames.length r
    ⟨r.root.getD (.missing e), r.anchored.toList.reverse, some e, false⟩

end TokenReader

namespace Document

/-- The first document of a text, from its tokens. -/
def ofLexed (x : Lexed) : Document :=
  let (result, r) := (Node.readDocument (4 * x.lexemes.length + 8)).run (TokenReader.start x)
  r.document result

def read (text : String) : Document := ofLexed (.ofText text.toList)

end Document

end Toolchain32.Yaml
