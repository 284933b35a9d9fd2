import Toolchain32.Text.Numeral
import Toolchain32.Yaml.Fault
import Toolchain32.Yaml.Folding

/-!
# Flow scalars

Plain scalars and scalars in single or double quotes. Each reader gives the text and what follows
it, or tells where it stopped.
-/

namespace Toolchain32.Yaml

/-- A plain scalar, what follows it, and whether a line ended in between. -/
structure PlainScalar where
  text : List Char
  rest : List Char
  endsLine : Bool
  deriving DecidableEq, Repr

/-- Whether a plain scalar ends before a character that follows white space, at a column of a
line. -/
def endsAfterGap (isFlow : Bool) (floor column : Nat) (gap : Gap) (s : List Char) : Bool :=
  !gap.isEmpty && (s.head? == some '#' ||
    gap.hasBreak && ((column == 0 && beginsMarker s) || (!isFlow && column < floor)))

/-- A plain scalar ends at a colon before a gap, and within flow collections at one of their marks.
`floor` is the least column of its further lines, and `column` the column since the last break. -/
def readPlain (isFlow : Bool) (floor : Nat) (text : List Char) (gap : Gap) (column : Nat) :
    List Char → Except Stop PlainScalar
  | [] => .ok ⟨text.reverse, [], gap.hasBreak⟩
  | c :: rest =>
    if isBlank c then
      if c == '\t' && gap.hasBreak && column < floor then
        .error ⟨.plainTab, .plainScalar, c :: rest⟩
      else readPlain isFlow floor text (gap.push c) (column + 1) rest
    else if isBreak c then readPlain isFlow floor text (gap.push c) 0 rest
    else if endsAfterGap isFlow floor column gap (c :: rest) then
      .ok ⟨text.reverse, c :: rest, gap.hasBreak⟩
    else if isFlow && c == ':' && rest.head?.any (fun d => d == '?' || isFlowMark d) then
      .error ⟨.plainColon, .plainScalar, c :: rest⟩
    else if (c == ':' && isGap rest.head?) || (isFlow && isFlowMark c) then
      .ok ⟨text.reverse, c :: rest, gap.hasBreak⟩
    else readPlain isFlow floor (c :: gap.flush text) .empty (column + 1) rest

def quote : Char := '\x27'

/-- A single quote is written twice. `startsLine` tells that the last character was a break. -/
def readSingleQuoted (text : List Char) (gap : Gap) (startsLine : Bool) :
    List Char → Except Stop (List Char × List Char)
  | [] => .error ⟨.unclosedQuotes, .quotedScalar, []⟩
  | c :: rest =>
    if isBlank c || isBreak c then readSingleQuoted text (gap.push c) (isBreak c) rest
    else if startsLine && beginsMarker (c :: rest) then
      .error ⟨.markerInQuotes, .quotedScalar, c :: rest⟩
    else if c != quote then readSingleQuoted (c :: gap.flush text) .empty false rest
    else match rest with
      | d :: rest =>
        if d == quote then readSingleQuoted (quote :: gap.flush text) .empty false rest
        else .ok ((gap.flush text).reverse, d :: rest)
      | [] => .ok ((gap.flush text).reverse, [])

/-- The characters that are named by a letter after a backslash. -/
def escapes : List (Char × Nat) :=
  [('0', 0x00), ('a', 0x07), ('b', 0x08), ('t', 0x09), ('\t', 0x09), ('n', 0x0A), ('v', 0x0B),
    ('f', 0x0C), ('r', 0x0D), ('e', 0x1B), (' ', 0x20), ('\x22', 0x22), ('/', 0x2F), ('\\', 0x5C),
    ('N', 0x85), ('_', 0xA0), ('L', 0x2028), ('P', 0x2029)]

/-- The count of hexadecimal digits after the letter of a numeric escape. -/
def escapeDigits : List (Char × Nat) := [('x', 2), ('u', 4), ('U', 8)]

def character? (n : Nat) : Option Char := if n.isValidChar then some (Char.ofNat n) else none

/-- Where a reader of double quotes stands: in the text, behind a backslash, or within the digits of
an escape, of which `count + 1` are still to come. The text from the first of them is `first`. -/
inductive EscapeState
  | outside
  | letter
  | digits (first : List Char) (count value : Nat)
  deriving DecidableEq, Repr

/-- The stop of a text that ends within quotes. -/
def EscapeState.endStop : EscapeState → Stop
  | outside => ⟨.unclosedQuotes, .quotedScalar, []⟩
  | letter => ⟨.unknownEscape, .quotedEscape, ['\\']⟩
  | digits first _ _ => ⟨.noEscapeDigit, .quotedEscape, first⟩

/-- A backslash escapes a character, or the break at the end of a line. -/
def readDoubleQuoted (state : EscapeState) (text : List Char) (gap : Gap) (startsLine : Bool) :
    List Char → Except Stop (List Char × List Char)
  | [] => .error state.endStop
  | c :: rest =>
    match state with
    | .letter =>
      if isBreak c then readDoubleQuoted .outside text (.breaks none []) true rest
      else match escapes.lookup c, escapeDigits.lookup c with
        | some n, _ => readDoubleQuoted .outside (Char.ofNat n :: text) .empty false rest
        | none, some (count + 1) => readDoubleQuoted (.digits rest count 0) text .empty false rest
        | none, _ => .error ⟨.unknownEscape, .quotedEscape, '\\' :: c :: rest⟩
    | .digits first count value =>
      match Text.digit? 16 c, count with
      | none, _ => .error ⟨.noEscapeDigit, .quotedEscape, first⟩
      | some d, 0 =>
        match character? (16 * value + d) with
        | some e => readDoubleQuoted .outside (e :: text) .empty false rest
        | none => .error ⟨.badEscapedCharacter, .quotedEscape, first⟩
      | some d, count + 1 =>
        readDoubleQuoted (.digits first count (16 * value + d)) text .empty false rest
    | .outside =>
      if isBlank c || isBreak c then readDoubleQuoted .outside text (gap.push c) (isBreak c) rest
      else if startsLine && beginsMarker (c :: rest) then
        .error ⟨.markerInQuotes, .quotedScalar, c :: rest⟩
      else if c == '\x22' then .ok ((gap.flush text).reverse, rest)
      else if c == '\\' then readDoubleQuoted .letter (gap.flush text) .empty false rest
      else readDoubleQuoted .outside (c :: gap.flush text) .empty false rest

end Toolchain32.Yaml
