import Toolchain32.Text.Numeral
import Toolchain32.Yaml.Pen
import Toolchain32.Yaml.Scalar
import Toolchain32.Yaml.Style

/-!
# Writing YAML

Mappings of texts are written in block style with two blanks of indent. A text is written plain if
it would be read back as that text, and in quotes otherwise; a key of more than 128 bytes, or of
several lines, takes the explicit form with a question mark.
-/

namespace Toolchain32.Yaml

/-- A text, or a mapping in its own order. -/
inductive Tree
  | text (s : String)
  | mapping (entries : List (String × Tree))

/-- The marks that make a text other than plain when it begins with one. -/
def isIndicator (c : Char) : Bool := "#,[]\x7b\x7d&*!|>\x27\"%@\x60".toList.contains c

/-- Whether the beginning of a text has a meaning of its own. -/
def beginsWithMark : List Char → Bool
  | '-' :: '-' :: '-' :: _ => true
  | '.' :: '.' :: '.' :: _ => true
  | c :: rest => isIndicator c || ("?:-".toList.contains c && isGap rest.head?)
  | [] => false

/-- Whether a colon before a gap or a comment mark after one stands within a text, which follows
the character `previous`. -/
def holdsMark (previous : Char) : List Char → Bool
  | [] => false
  | c :: rest =>
    (c == ':' && isGap rest.head?) || (c == '#' && isGap (some previous)) || holdsMark c rest

/-- Whether a character of the first class is followed by one of the second. -/
def hasPair (p q : Char → Bool) : List Char → Bool
  | a :: b :: rest => (p a && q b) || hasPair p q (b :: rest)
  | _ => false

def needsEscapes (s : List Char) : Bool :=
  s.any (fun c => !isPrintable c) || hasPair isSpace isBreak s

def hasEdgeBlank (s : List Char) : Bool :=
  (s.head?.any fun c => isSpace c || isBreak c) || (s.getLast?.any fun c => isSpace c || isBreak c)

/-- Whether a text may stand without quotes. -/
def mayBePlain (s : List Char) : Bool :=
  !(hasEdgeBlank s || s.any isBreak || needsEscapes s || beginsWithMark s ||
    match s with
    | [] => false
    | c :: rest => holdsMark c rest)

/-- Whether a text without quotes would be read as something else. -/
def isAmbiguous (s : String) : Bool :=
  match Scalar.ofPlain s with
  | .text _ => Scalar.hasLeadingZero s.toList
  | _ => true

/-- A text of several lines is a literal block, unless it needs escapes or ends with a blank. -/
def styleOf (s : String) : ScalarStyle :=
  let chars := s.toList
  if chars.contains '\n' then
    if needsEscapes chars || chars.getLast?.any isSpace then .doubleQuoted else .literal
  else if !isAmbiguous s && mayBePlain chars then .plain
  else if needsEscapes chars || hasPair isBreak isSpace chars then .doubleQuoted
  else .singleQuoted

def escapeLetters : List (Nat × Char) :=
  [(0x00, '0'), (0x07, 'a'), (0x08, 'b'), (0x09, 't'), (0x0A, 'n'), (0x0B, 'v'), (0x0C, 'f'),
    (0x0D, 'r'), (0x1B, 'e'), (0x22, '\x22'), (0x5C, '\\'), (0x85, 'N'), (0xA0, '_'),
    (0x2028, 'L'), (0x2029, 'P')]

def escaped (c : Char) : String :=
  let n := c.toNat
  if isPrintable c && !isBreak c && c != '\x22' && c != '\\' then String.singleton c
  else match escapeLetters.lookup n with
    | some letter => String.ofList ['\\', letter]
    | none =>
      if n ≤ 0xFF then "\\x" ++ Text.upperHex 2 n
      else if n ≤ 0xFFFF then "\\u" ++ Text.upperHex 4 n
      else "\\U" ++ Text.upperHex 8 n

/-- What tells a literal block to keep or to drop the breaks at its end. -/
def chomping (s : List Char) : String :=
  match s.reverse with
  | c :: rest => if !isBreak c then "-" else if (rest.head?.map isBreak).getD true then "+" else ""
  | [] => "-"

/-- What follows the mark of a literal block: its indent, where the text begins with white space,
and what becomes of the breaks at its end. -/
def literalHints (s : List Char) : String :=
  (if s.head?.any (fun c => isSpace c || isBreak c) then "2" else "") ++ chomping s

namespace Pen

def putPlain (p : Pen) (s : List Char) : Pen :=
  { p.separate.putText s with isIndented := false, isSeparate := false }

/-- A quote within is written twice. -/
def putSingleQuoted (p : Pen) (indent : Nat) (s : List Char) : Pen :=
  let quote := '\x27'
  let body := s.flatMap fun c => if c = quote then [quote, quote] else [c]
  let p := body.foldl (putIndented indent) (p.putMark (.opening (String.singleton quote)))
  (if p.column = 0 then p.indentTo indent else p).putMark (.closing (String.singleton quote))

def putDoubleQuoted (p : Pen) (s : List Char) : Pen :=
  let body := s.flatMap fun c => (escaped c).toList
  ((p.putMark (.opening "\"")).putText body).putMark (.closing "\"")

def putLiteral (p : Pen) (indent : Nat) (s : List Char) : Pen :=
  let p := ((p.putMark (.opening "|")).putMark (.closing (literalHints s))).put '\n'
  s.foldl (putIndented indent) { p with isSeparate := true }

/-- A text, whose further lines stand at an indent. -/
def putScalar (p : Pen) (indent : Nat) (s : String) : Pen :=
  let chars := s.toList
  match styleOf s with
  | .plain => p.putPlain chars
  | .singleQuoted => p.putSingleQuoted indent chars
  | .literal | .folded => p.putLiteral indent chars
  | .doubleQuoted => p.putDoubleQuoted chars

end Pen

/-- Whether a key stands on one line with its value. -/
def isSimpleKey (key : String) : Bool := key.utf8ByteSize ≤ 128 && !key.toList.any isBreak

/-- A key at an indent, with the mark of its value. -/
def Pen.putKey (p : Pen) (indent : Nat) (key : String) : Pen :=
  let p := p.indentTo indent
  if isSimpleKey key then (p.putScalar (indent + 2) key).putMark .keyEnd
  else
    let p := (p.putMark .keyStart).putScalar (indent + 2) key
    (p.indentTo indent).putMark .valueStart

mutual

def Pen.putTree (p : Pen) (indent : Nat) : Tree → Pen
  | .text s => p.putScalar indent s
  | .mapping [] => (p.putMark .mappingStart).putMark (.closing "\x7d")
  | .mapping entries => p.putEntries indent entries

def Pen.putEntries (p : Pen) (indent : Nat) : List (String × Tree) → Pen
  | [] => p
  | (key, value) :: rest =>
    ((p.putKey indent key).putTree (indent + 2) value).putEntries indent rest

end

/-- The document of a mapping. -/
def printMapping (entries : List (String × Tree)) : String :=
  ((Pen.start.putTree 0 (.mapping entries)).indentTo 0).text

end Toolchain32.Yaml
