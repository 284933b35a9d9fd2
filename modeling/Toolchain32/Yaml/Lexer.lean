import Toolchain32.Yaml.BlockScalar
import Toolchain32.Yaml.FlowScalar
import Toolchain32.Yaml.Property

/-!
# Reading tokens

The tokens of a text from left to right. A token that may turn out to be a key is remembered with
its place, and the mark of the key is put there once its colon comes. Columns open and close the
block collections. Where a fault ends the tokens, one that may turn out to be a key is not known
yet.
-/

namespace Toolchain32.Yaml

/-- A place in a text: what follows it, how many octets stand before it, its line, and how many
characters of its line stand before it. -/
structure Cursor where
  rest : List Char
  index : Nat
  line : Nat
  column : Nat
  deriving DecidableEq, Repr

namespace Cursor

def position (c : Cursor) : Position := ⟨c.line, c.column⟩

def pass (c : Cursor) : Cursor :=
  match c.rest with
  | [] => c
  | a :: rest =>
    if isBreak a then ⟨rest, c.index + a.utf8Size, c.line + 1, 0⟩
    else ⟨rest, c.index + a.utf8Size, c.line, c.column + 1⟩

def advance : Nat → Cursor → Cursor
  | 0, c => c
  | n + 1, c => advance n c.pass

/-- The place where what follows is `rest`. -/
def moveTo (c : Cursor) (rest : List Char) : Cursor := c.advance (c.rest.length - rest.length)

/-- The line of the end of a text counts as ended. -/
def endLine (c : Cursor) : Cursor :=
  { c with line := c.position.lineEnd.line, column := c.position.lineEnd.column }

/-- The fault of a token that starts at a cursor and is not read to its end. -/
def faultOf (c : Cursor) (s : Stop) : Fault :=
  ⟨s.problem, (c.moveTo s.rest).position, some (s.context, c.position)⟩

end Cursor

/-- A token that may be a key: how many tokens stand before it, and its place. In a block mapping a
token at the column of the keys has to be one. -/
structure PossibleKey where
  tokensBefore : Nat
  index : Nat
  position : Position
  isRequired : Bool
  deriving DecidableEq, Repr

/-- The tokens so far are kept backwards, the columns of the open block collections and the possible
keys of the open flow collections from the innermost outwards. -/
structure Lexer where
  cursor : Cursor
  tokens : List Lexeme
  columns : List Nat
  keys : List (Option PossibleKey)
  mayStartKey : Bool
  deriving DecidableEq, Repr

namespace Lexer

def start (text : List Char) : Lexer := ⟨⟨text, 0, 0, 0⟩, [], [], [none], true⟩

def isFlow (l : Lexer) : Bool := 1 < l.keys.length

/-- The least column of what belongs to the innermost block collection. -/
def floor (l : Lexer) : Nat := (l.columns.head?.map (· + 1)).getD 0

/-- A token from the cursor to another one, which then takes its place. -/
def take (l : Lexer) (t : Token) (next : Cursor) : Lexer :=
  { l with cursor := next, tokens := ⟨t, l.cursor.position, next.position⟩ :: l.tokens }

/-- A token of the next characters, so many of them. -/
def takeNext (l : Lexer) (t : Token) (n : Nat) : Lexer := l.take t (l.cursor.advance n)

/-- A token before a text. -/
def takeTo (l : Lexer) (t : Token) (rest : List Char) : Lexer := l.take t (l.cursor.moveTo rest)

/-- A token that takes no place. -/
def insert (l : Lexer) (position : Position) (t : Token) : Lexer :=
  { l with tokens := .at position t :: l.tokens }

/-- A problem at the cursor. -/
def fault {α : Type} (l : Lexer) (p : Problem) (context : Option (Context × Position)) :
    Except Fault α :=
  .error ⟨p, l.cursor.position, context⟩

/-- What is read within the token at the cursor. -/
def within {α : Type} (l : Lexer) (read : Except Stop α) : Except Fault α :=
  read.mapError l.cursor.faultOf

/-- How many of the open columns lie to the right of a column. -/
def deeper (column : Nat) (columns : List Nat) : Nat :=
  (columns.takeWhile fun c => column < c).length

/-- The innermost block collections end, so many of them. -/
def unindentBy (l : Lexer) (n : Nat) : Lexer :=
  { l with
    tokens := List.replicate n (.at l.cursor.position .blockEnd) ++ l.tokens
    columns := l.columns.drop n }

/-- The block collections to the right of the cursor end. -/
def unindent (l : Lexer) : Lexer :=
  if l.isFlow then l else l.unindentBy (deeper l.cursor.column l.columns)

/-- All block collections end. -/
def unindentAll (l : Lexer) : Lexer := if l.isFlow then l else l.unindentBy l.columns.length

/-- Whether something at a column opens a new block collection. -/
def opensAt (l : Lexer) (column : Nat) : Bool := !l.isFlow && l.floor ≤ column

/-- The start of a block collection at a position, if it opens one. -/
def indent (l : Lexer) (position : Position) (t : Token) : Lexer :=
  if l.opensAt position.column then
    { l.insert position t with columns := position.column :: l.columns }
  else l

/-- A required key without its colon. -/
def overdue {α : Type} (l : Lexer) (key : PossibleKey) : Except Fault α :=
  l.fault .overdueColon (some (.possibleKey, key.position))

def forgetKey (l : Lexer) : Except Fault Lexer :=
  match l.keys.head?.join.filter (·.isRequired) with
  | some key => l.overdue key
  | none => .ok { l with keys := none :: l.keys.drop 1 }

/-- The next token may be a key, if keys may start here. -/
def rememberKey (l : Lexer) : Except Fault Lexer :=
  if l.mayStartKey then do
    let c := l.cursor
    let isRequired := !l.isFlow && l.columns.head? == some c.column
    let l ← l.forgetKey
    let key : PossibleKey := ⟨l.tokens.length, c.index, c.position, isRequired⟩
    return { l with keys := some key :: l.keys.drop 1 }
  else .ok l

/-- A key is followed by its colon on its own line and within 1024 octets. -/
def isStale (c : Cursor) (key : PossibleKey) : Bool :=
  key.position.line < c.line || key.index + 1024 < c.index

/-- Possible keys whose colon is overdue are none; a required one may not be overdue. -/
def dropStaleKeys (l : Lexer) : Except Fault Lexer :=
  match (l.keys.filterMap id).find? fun k => k.isRequired && isStale l.cursor k with
  | some key => l.overdue key
  | none => .ok { l with keys := l.keys.map fun key => key.filter fun k => !isStale l.cursor k }

/-- What an iteration over a gap knows: whether a key may start, and whether the place is the start
of a line or within a comment. -/
structure GapState where
  mayStartKey : Bool
  startsLine : Bool
  inComment : Bool
  deriving DecidableEq, Repr

/-- The mark of an encoding, which may begin a line. -/
def byteOrderMark : Char := '\ufeff'

/-- White space, comments, line breaks and the marks of an encoding are passed. Tabs may not indent
what can be a key. -/
def passGap (isFlow : Bool) (g : GapState) : List Char → Bool × List Char
  | [] => (g.mayStartKey, [])
  | c :: rest =>
    if isBreak c then passGap isFlow ⟨g.mayStartKey || !isFlow, true, false⟩ rest
    else if g.inComment || c == '#' then passGap isFlow ⟨g.mayStartKey, false, true⟩ rest
    else if c == ' ' || (c == '\t' && (isFlow || !g.mayStartKey)) ||
        (c == byteOrderMark && g.startsLine) then
      passGap isFlow ⟨g.mayStartKey, false, false⟩ rest
    else (g.mayStartKey, c :: rest)

def toNextToken (l : Lexer) : Lexer :=
  let (mayStartKey, rest) :=
    passGap l.isFlow ⟨l.mayStartKey, l.cursor.column == 0, false⟩ l.cursor.rest
  { l with cursor := l.cursor.moveTo rest, mayStartKey := mayStartKey }

def documentMark (l : Lexer) (t : Token) : Except Fault Lexer := do
  let l ← l.unindentAll.forgetKey
  return { l.takeNext t 3 with mayStartKey := false }

def directive (l : Lexer) (s : List Char) : Except Fault Lexer := do
  let l ← l.unindentAll.forgetKey
  let (t, rest) ← l.within (readDirective s)
  return { l.takeTo t rest with mayStartKey := false }

def openFlow (l : Lexer) (t : Token) : Except Fault Lexer := do
  let l ← l.rememberKey
  return { l.takeNext t 1 with keys := none :: l.keys, mayStartKey := true }

def closeFlow (l : Lexer) (t : Token) : Except Fault Lexer := do
  let l ← l.forgetKey
  let keys := if l.isFlow then l.keys.drop 1 else l.keys
  return { l.takeNext t 1 with keys := keys, mayStartKey := false }

def flowEntry (l : Lexer) : Except Fault Lexer := do
  let l ← l.forgetKey
  return { l.takeNext .flowEntry 1 with mayStartKey := true }

def blockEntry (l : Lexer) : Except Fault Lexer :=
  if !l.isFlow && !l.mayStartKey then l.fault .misplacedEntry none
  else do
    let l ← (l.indent l.cursor.position .blockSequenceStart).forgetKey
    return { l.takeNext .blockEntry 1 with mayStartKey := true }

def explicitKey (l : Lexer) : Except Fault Lexer :=
  if !l.isFlow && !l.mayStartKey then l.fault .misplacedKey none
  else do
    let l ← (l.indent l.cursor.position .blockMappingStart).forgetKey
    return { l.takeNext .key 1 with mayStartKey := !l.isFlow }

/-- The colon of a possible key puts the mark of the key in front of it, and the start of a block
mapping if the key opens one. -/
def confirmKey (l : Lexer) (key : PossibleKey) : Lexer :=
  let (after, before) := l.tokens.splitAt (l.tokens.length - key.tokensBefore)
  let l' := { l with tokens := before }.indent key.position .blockMappingStart
  let l' := l'.insert key.position .key
  { l' with tokens := after ++ l'.tokens, keys := none :: l.keys.drop 1, mayStartKey := false }

def mappingValue (l : Lexer) : Except Fault Lexer :=
  match l.keys.head?.join with
  | some key => .ok ((l.confirmKey key).takeNext .value 1)
  | none =>
    if !l.isFlow && !l.mayStartKey then l.fault .misplacedValue none
    else
      let l := l.indent l.cursor.position .blockMappingStart
      .ok { l.takeNext .value 1 with mayStartKey := !l.isFlow }

/-- A token that may be a key, with what follows it. -/
def keyToken (l : Lexer) (read : Except Stop (Token × List Char)) : Except Fault Lexer := do
  let l ← l.rememberKey
  let (t, rest) ← l.within read
  return { l.takeTo t rest with mayStartKey := false }

def nameToken (l : Lexer) (make : String → Token) (context : Context) (s : List Char) :
    Except Fault Lexer :=
  l.keyToken ((readAnchorName context s).map fun (name, rest) => (make name, rest))

def quotedToken (l : Lexer) (style : ScalarStyle) (read : Except Stop (List Char × List Char)) :
    Except Fault Lexer :=
  l.keyToken (read.map fun (text, rest) => (.scalar style (String.ofList text), rest))

def blockToken (l : Lexer) (style : ScalarStyle) (s : List Char) : Except Fault Lexer := do
  let l ← l.forgetKey
  let (text, rest) ← l.within (readBlockScalar (style == .folded) l.floor s)
  return { l.takeTo (.scalar style (String.ofList text)) rest with mayStartKey := true }

def plainToken (l : Lexer) : Except Fault Lexer := do
  let l ← l.rememberKey
  let p ← l.within (readPlain l.isFlow l.floor [] .empty l.cursor.column l.cursor.rest)
  return { l.takeTo (.scalar .plain (String.ofList p.text)) p.rest with mayStartKey := p.endsLine }

/-- Whether a plain scalar starts with a mark only because of the character after it. -/
def startsPlain (isFlow : Bool) (c : Char) (next : Option Char) : Bool :=
  if c == '-' then !next.any isBlank
  else if c == '?' || c == ':' then !isFlow && !isGap next
  else !isBlank c && !",[]\x7b\x7d#&*!|>\x27\"%@\x60".toList.contains c

/-- The token at the cursor, of which the first character is `c`. -/
def token (l : Lexer) (c : Char) (rest : List Char) : Except Fault Lexer :=
  let isAlone := isGap rest.head?
  if l.cursor.column == 0 && c == '%' then l.directive rest
  else if l.cursor.column == 0 && beginsMarker (c :: rest) then
    l.documentMark (if c == '-' then .documentStart else .documentEnd)
  else match c with
    | '[' => l.openFlow .flowSequenceStart
    | '\x7b' => l.openFlow .flowMappingStart
    | ']' => l.closeFlow .flowSequenceEnd
    | '\x7d' => l.closeFlow .flowMappingEnd
    | ',' => l.flowEntry
    | '*' => l.nameToken .alias .aliasName rest
    | '&' => l.nameToken .anchor .anchorName rest
    | '!' => l.keyToken (readTag l.isFlow rest)
    | '\x27' => l.quotedToken .singleQuoted (readSingleQuoted [] .empty false rest)
    | '\x22' => l.quotedToken .doubleQuoted (readDoubleQuoted .outside [] .empty false rest)
    | _ =>
      if c == '-' && isAlone then l.blockEntry
      else if c == '?' && (l.isFlow || isAlone) then l.explicitKey
      else if c == ':' && (l.isFlow || isAlone) then l.mappingValue
      else if c == '|' && !l.isFlow then l.blockToken .literal rest
      else if c == '>' && !l.isFlow then l.blockToken .folded rest
      else if startsPlain l.isFlow c rest.head? then l.plainToken
      else l.fault .strayCharacter (some (.nextToken, l.cursor.position))

/-- The end of the text: all block collections end, and no required key is left, be it around an open
flow collection. -/
def finish (l : Lexer) : Except Fault Lexer := do
  let l ← { l with cursor := l.cursor.endLine }.unindentAll.forgetKey
  l.dropStaleKeys

/-- The tokens that are known where a fault ends them. -/
def cutOff (l : Lexer) (f : Fault) : Lexed :=
  let pending := l.keys.filterMap fun key => key.map (·.tokensBefore)
  ⟨l.tokens.reverse.take (pending.foldl min l.tokens.length), .error (.fault f)⟩

/-- What is known with nothing more to come. -/
def complete (l : Lexer) : Lexed := ⟨l.tokens.reverse, .ok l.cursor.position⟩

/-- The next token with all that ends before it, and whether it is the end of the text. -/
def step (l : Lexer) : Except Fault (Lexer × Bool) := do
  let l ← l.toNextToken.dropStaleKeys
  let l := l.unindent
  match l.cursor.rest with
  | [] => return (← l.finish, true)
  | c :: rest => return (← l.token c rest, false)

/-- Tokens up to the end of the text, each at least one character long. -/
def run : Nat → Lexer → Lexed
  | 0, l => l.complete
  | n + 1, l =>
    match l.dropStaleKeys with
    | .error f => l.cutOff f
    | .ok l =>
      match l.step with
      | .error f => l.cutOff f
      | .ok (l, true) => l.complete
      | .ok (l, false) => run n l

end Lexer

namespace Lexed

/-- The tokens of a text. A character that no text may hold is an error before all others. -/
def ofText (s : List Char) : Lexed :=
  let readable := s.takeWhile isReadable
  if readable.length < s.length then
    ⟨[], .error (.unreadable (readable.foldl (fun n c => n + c.utf8Size) 0))⟩
  else
    let s := unifyBreaks s
    (Lexer.start s).run (s.length + 1)

end Lexed

end Toolchain32.Yaml
