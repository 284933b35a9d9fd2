/-!
# Character classes of YAML
-/

namespace Toolchain32.Yaml

def isBreak (c : Char) : Bool :=
  c == '\n' || c == '\r' || c.toNat == 0x85 || c.toNat == 0x2028 || c.toNat == 0x2029

def isSpace (c : Char) : Bool := c == ' '

def isBlank (c : Char) : Bool := c == ' ' || c == '\t'

/-- Blanks, line breaks and the end of the text separate a character from what follows it. -/
def isGap : Option Char → Bool
  | none => true
  | some c => isBlank c || c.toNat == 0 || isBreak c

/-- The characters that stand in a written text as they are. -/
def isPrintable (c : Char) : Bool :=
  let n := c.toNat
  n == 0x0A || (0x20 ≤ n && n ≤ 0x7E) || (0xA0 ≤ n && n ≤ 0xD7FF) ||
    (0xE000 ≤ n && n ≤ 0xFFFD && n != 0xFEFF) || 0x10000 ≤ n

/-- The characters that a text to be read may hold. -/
def isReadable (c : Char) : Bool :=
  let n := c.toNat
  n == 0x09 || n == 0x0A || n == 0x0D || (0x20 ≤ n && n ≤ 0x7E) || n == 0x85 ||
    (0xA0 ≤ n && n ≤ 0xD7FF) || (0xE000 ≤ n && n ≤ 0xFFFD) || 0x10000 ≤ n

/-- The characters of the names of anchors and of the handles of tags. -/
def isNameChar (c : Char) : Bool := c.isAlphanum || c == '_' || c == '-'

def isFlowMark (c : Char) : Bool := ",[]\x7b\x7d".toList.contains c

/-- Every line break becomes a line feed, except the two separators of Unicode. -/
def unifyBreaks : List Char → List Char
  | '\r' :: '\n' :: rest => '\n' :: unifyBreaks rest
  | c :: rest => (if c == '\r' || c.toNat == 0x85 then '\n' else c) :: unifyBreaks rest
  | [] => []

/-- Whether a line begins with the marker `---` or `...`. -/
def beginsMarker : List Char → Bool
  | a :: b :: c :: rest => (a == '-' || a == '.') && a == b && b == c && isGap rest.head?
  | _ => false

end Toolchain32.Yaml
