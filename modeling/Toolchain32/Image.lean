import Std.Data.ExtTreeMap
import Toolchain32.Text.Blank
import Toolchain32.Text.Numeral
import Toolchain32.Text.Split
import Toolchain32.ErrorKind
import Toolchain32.Word

/-!
# Memory images

An image holds words at byte addresses. Its text has the words in ascending address order, two on
a line while their addresses are consecutive:

    40000000:  21F00000  04000040
    40000008:  00000000

`Image.print` writes that text and `Image.parse` reads it, with any white space around the words.
-/

namespace Toolchain32

/-- Words by address. -/
structure Image where
  words : Std.ExtTreeMap Word Word
  deriving DecidableEq

namespace Image

def empty : Image := ⟨∅⟩

def get? (image : Image) (address : Word) : Option Word := image.words[address]?

def set (image : Image) (address word : Word) : Image := ⟨image.words.insert address word⟩

def size (image : Image) : Nat := image.words.size

/-- The words with their addresses, in ascending address order. -/
def toList (image : Image) : List (Word × Word) := image.words.toList

/-- The writes in order; a later write to an address wins. -/
def setAll (image : Image) (writes : List (Word × Word)) : Image :=
  writes.foldl (fun image w => image.set w.1 w.2) image

def ofList (writes : List (Word × Word)) : Image := empty.setAll writes

theorem get?_set (image : Image) (a b w : Word) :
    (image.set a w).get? b = if a = b then some w else image.get? b := by
  simp [get?, set, Std.ExtTreeMap.getElem?_insert]

@[simp] theorem get?_empty (a : Word) : empty.get? a = none := by simp [get?, empty]

theorem ext_get? {i j : Image} (h : ∀ a, i.get? a = j.get? a) : i = j := by
  cases i; cases j
  exact congrArg mk (Std.ExtTreeMap.ext_getElem? h)

theorem mem_toList_iff {image : Image} {a w : Word} :
    (a, w) ∈ image.toList ↔ image.get? a = some w :=
  Std.ExtTreeMap.mem_toList_iff_getElem?_eq_some

/-- The lines of a list of words: a word shares its line with the next one if that one's address
follows it. -/
def printLines : List (Word × Word) → List String
  | [] => []
  | [(a, w)] => [Text.upperHex 8 a.toNat ++ ":  " ++ Text.upperHex 8 w.toNat]
  | (a, w) :: (b, v) :: rest =>
    let first := Text.upperHex 8 a.toNat ++ ":  " ++ Text.upperHex 8 w.toNat
    if a.toNat + 4 = b.toNat then
      (first ++ "  " ++ Text.upperHex 8 v.toNat) :: printLines rest
    else first :: printLines ((b, v) :: rest)

def print (image : Image) : String := String.join ((printLines image.toList).map (· ++ "\n"))

/-- What is wrong with a line of an image text. -/
inductive Flaw
  | missingColon
  | badAddress
  | wordCount
  | badWord
  | addressOverflow
  deriving DecidableEq, Repr

def Flaw.message : Flaw → String
  | missingColon => "missing \x60:\x60"
  | badAddress => "bad address"
  | wordCount => "expected one or two words"
  | badWord => "bad word"
  | addressOverflow => "address overflow"

/-- A flaw and the number of the line it is on. -/
structure FormatError where
  line : Nat
  flaw : Flaw
  deriving DecidableEq, Repr

def FormatError.message (e : FormatError) : String :=
  s!"Malformed memory image (line {e.line}): " ++ e.flaw.message

def FormatError.kind (_ : FormatError) : ErrorKind := .format

/-- The one or two words whose digits follow an address. -/
def readWords (address : Word) (digits : List Char) : Except Flaw (List (Word × Word)) := do
  unless digits.all (·.toNat < 128) && (digits.length = 8 || digits.length = 16) do
    throw .wordCount
  let some first := Text.exactWord? (digits.take 8) | throw .badWord
  if digits.length = 8 then
    return [(address, first)]
  let some second := Text.exactWord? (digits.drop 8) | throw .badWord
  if address.toNat + 4 < 0x100000000 then
    return [(address, first), (address + 4, second)]
  else throw .addressOverflow

/-- The words of one line, which may be blank. -/
def readLine (raw : List Char) : Except Flaw (List (Word × Word)) := do
  let line := Text.trim raw
  if line.isEmpty then
    return []
  let some (head, rest) := Text.cutAt? (· == ':') line | throw .missingColon
  let some address := Text.exactWord? (Text.trim head) | throw .badAddress
  readWords address (rest.filter (fun c => !Text.isBlank c))

/-- The words of numbered lines, put into an image. -/
def readLines (image : Image) : Nat → List (List Char) → Except FormatError Image
  | _, [] => .ok image
  | n, line :: rest =>
    match readLine line with
    | .error flaw => .error ⟨n, flaw⟩
    | .ok words => readLines (image.setAll words) (n + 1) rest

def parse (text : String) : Except FormatError Image :=
  readLines empty 1 (Text.lines text.toList)

end Image

end Toolchain32
