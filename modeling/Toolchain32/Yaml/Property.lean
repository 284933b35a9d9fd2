import Toolchain32.Text.Numeral
import Toolchain32.Yaml.LineEnd
import Toolchain32.Yaml.Tag
import Toolchain32.Yaml.Token

/-!
# Directives, anchors and tags

Each reader stands behind the mark that announces its token. It gives the token with what follows,
or tells where it stopped.
-/

namespace Toolchain32.Yaml

def readName (s : List Char) : List Char × List Char :=
  (s.takeWhile isNameChar, s.dropWhile isNameChar)

/-- The name behind `*` or `&`, which a gap or one of certain marks has to follow. -/
def readAnchorName (context : Context) (s : List Char) : Except Stop (String × List Char) :=
  let (name, rest) := readName s
  let isEnded := isGap rest.head? || rest.head?.any "?:,]\x7d%@\x60".toList.contains
  if name.isEmpty || !isEnded then .error ⟨.noName, context, rest⟩
  else .ok (String.ofList name, rest)

/-- The characters of the suffix of a tag; the marks of flow sequences only where they are told. -/
def isTagChar (withMarks : Bool) (c : Char) : Bool :=
  isNameChar c || ";/?:@&=+$.!~*\x27()".toList.contains c || (withMarks && ",[]".toList.contains c)

/-- How many octets of a character follow its first one in UTF-8. -/
def trailingOctets? (first : Nat) : Option Nat :=
  if first < 0x80 then some 0
  else if first < 0xC0 then none
  else if first < 0xE0 then some 1
  else if first < 0xF0 then some 2
  else if first < 0xF8 then some 3
  else none

/-- How many octets are still due after an encoded one, of which `due` were due before. -/
def dueAfter (due octet : Nat) : Except Problem Nat :=
  match due with
  | 0 =>
    match trailingOctets? octet with
    | some n => .ok n
    | none => .error .badLeadingOctet
  | n + 1 => if 0x80 ≤ octet && octet < 0xC0 then .ok n else .error .badTrailingOctet

/-- The octet that two digits encode. -/
def octet? (a b : Char) : Option Nat := do
  return 16 * (← Text.digit? 16 a) + (← Text.digit? 16 b)

/-- The octets of a suffix, in which `%` and two digits encode one. So encoded octets come in
characters, and `due` of them are still to come. -/
def readTagOctets (context : Context) (withMarks : Bool) (due : Nat) :
    List Char → Except Stop (List UInt8 × List Char)
  | [] => if due = 0 then .ok ([], []) else .error ⟨.noOctet, context, []⟩
  | '%' :: a :: b :: rest =>
    let stop (p : Problem) : Stop := ⟨p, context, '%' :: a :: b :: rest⟩
    match octet? a b with
    | none => .error (stop .noOctet)
    | some octet =>
      match dueAfter due octet with
      | .error p => .error (stop p)
      | .ok due => do
        let (more, rest) ← readTagOctets context withMarks due rest
        return (UInt8.ofNat octet :: more, rest)
  | c :: rest =>
    if due ≠ 0 || c == '%' then .error ⟨.noOctet, context, c :: rest⟩
    else if isTagChar withMarks c then do
      let (more, rest) ← readTagOctets context withMarks 0 rest
      return (c.toUInt8 :: more, rest)
    else .ok ([], c :: rest)

/-- A suffix and what follows it. It ends before its first NUL. -/
def readTagSuffix (context : Context) (withMarks : Bool) (s : List Char) :
    Except Stop (List UInt8 × List Char) := do
  let (octets, rest) ← readTagOctets context withMarks 0 s
  return (octets.takeWhile (· != 0), rest)

/-- A suffix of at least one character. -/
def readTagSuffixOnce (context : Context) (withMarks : Bool) (s : List Char) :
    Except Stop (List UInt8 × List Char) := do
  let (suffix, rest) ← readTagSuffix context withMarks s
  if rest.length < s.length then return (suffix, rest)
  else .error ⟨.noTagSuffix, context, rest⟩

/-- The handle of a tag behind its first `!`: a name and a second `!`, if both are there. -/
def readTagHandle (s : List Char) : Option (String × List Char) :=
  match readName s with
  | (name, '!' :: rest) => some (String.ofList ('!' :: name ++ ['!']), rest)
  | _ => none

/-- A tag in angle brackets, behind the first of them. -/
def readVerbatimTag (s : List Char) : Except Stop (Token × List Char) := do
  let (suffix, rest) ← readTagSuffixOnce .tagSuffix true s
  match rest with
  | '>' :: rest => return (Token.tag "" suffix, rest)
  | _ => .error ⟨.unclosedTag, .tag, rest⟩

/-- A tag behind `!` with a handle, or a local one. -/
def readShortTag (s : List Char) : Except Stop (Token × List Char) :=
  match readTagHandle s with
  | some (handle, s) => do
    let (suffix, rest) ← readTagSuffixOnce .tagSuffix false s
    return (Token.tag handle suffix, rest)
  | none => do
    let (suffix, rest) ← readTagSuffix .tagSuffix false s
    if suffix.isEmpty then return (Token.tag "" [Tag.mark.toUInt8], rest)
    else return (Token.tag (String.singleton Tag.mark) suffix, rest)

/-- A tag behind `!`. A gap follows it, or a comma in a flow collection. -/
def readTag (isFlow : Bool) (s : List Char) : Except Stop (Token × List Char) := do
  let (token, rest) ← match s with
    | '<' :: s => readVerbatimTag s
    | _ => readShortTag s
  if isGap rest.head? || (isFlow && rest.head? == some ',') then return (token, rest)
  else .error ⟨.noGapOrLineEnd, .tag, rest⟩

/-- A number of at most nine digits. -/
def readVersionNumber (s : List Char) : Except Stop (Nat × List Char) :=
  let digits := s.takeWhile Char.isDigit
  if 9 < digits.length then .error ⟨.longVersion, .versionDirective, s.drop 9⟩
  else match Text.natural? 10 digits with
    | some n => .ok (n, s.dropWhile Char.isDigit)
    | none => .error ⟨.noVersion, .versionDirective, s⟩

def readVersion (s : List Char) : Except Stop (Token × List Char) := do
  let (major, rest) ← readVersionNumber s
  match rest with
  | '.' :: rest => do
    let (minor, rest) ← readVersionNumber rest
    return (Token.version major minor, rest)
  | _ => .error ⟨.noVersionPoint, .versionDirective, rest⟩

/-- The handle that a directive is about. -/
def readDirectiveHandle : List Char → Except Stop (String × List Char)
  | '!' :: s =>
    match readTagHandle s, readName s with
    | some read, _ => .ok read
    | none, ([], rest) => .ok (String.singleton Tag.mark, rest)
    | none, (_, rest) => .error ⟨.noHandleMark, .handleName, rest⟩
  | s => .error ⟨.noHandleMark, .handleMark, s⟩

/-- A handle, blanks and what the handle stands for. -/
def readHandleMeaning (s : List Char) : Except Stop (Token × List Char) := do
  let (handle, rest) ← readDirectiveHandle s
  if !rest.head?.any isBlank then .error ⟨.noGap, .tagDirective, rest⟩
  else
    let (meaning, rest) ← readTagSuffixOnce .handleMeaning true (rest.dropWhile isBlank)
    if isGap rest.head? then return (Token.tagHandle handle meaning, rest)
    else .error ⟨.noGapOrLineEnd, .tagDirective, rest⟩

/-- A directive behind `%`, up to the end of its line. -/
def readDirective (s : List Char) : Except Stop (Token × List Char) := do
  let (name, rest) := readName s
  if name.isEmpty then .error ⟨.noDirectiveName, .directive, rest⟩
  else if !isGap rest.head? then .error ⟨.badDirectiveName, .directive, rest⟩
  else
    let body := rest.dropWhile isBlank
    let (token, rest) ←
      if name = "YAML".toList then readVersion body
      else if name = "TAG".toList then readHandleMeaning body
      else .error ⟨.unknownDirective, .directive, rest⟩
    return (token, ← passLineEnd .directive rest)

end Toolchain32.Yaml
