import Toolchain32.Assembly.Error
import Toolchain32.Source.Line

/-!
# Programs

A program is the numbered lines of a source, up to and including the first `.end`.
-/

namespace Toolchain32

structure NumberedLine where
  number : Nat
  line : Line
  deriving DecidableEq, Repr

abbrev Program := List NumberedLine

namespace Program

/-- The lines of a text, the first of which has the given number. -/
def readLines : Nat → List (List Char) → Except SourceError Program
  | _, [] => .ok []
  | n, raw :: rest =>
    match Line.readChars raw with
    | .error e => .error ⟨n, .malformedLine e⟩
    | .ok line =>
      if line.statement = some .finish then .ok [⟨n, line⟩]
      else (readLines (n + 1) rest).map (⟨n, line⟩ :: ·)

def read (source : String) : Except SourceError Program :=
  readLines 1 (Text.lines source.toList)

end Program

/-- A skip in whole words. -/
def skipBytes (n : Word) : Except AssemblyError Nat :=
  if n.toNat + 3 < 0x100000000 then .ok ((n.toNat + 3) / 4 * 4) else .error (.skipOverflow n)

end Toolchain32
