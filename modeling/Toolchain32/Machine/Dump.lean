import Toolchain32.Machine.Observer
import Toolchain32.Machine.Report
import Toolchain32.Text.Quoted

/-!
# Dumps

A dump shows the registers in a box and, at chosen addresses, also the top of the stack and chosen
words of memory. A plan says where.
-/

namespace Toolchain32

/-- What is shown after the instruction at an address, besides the registers. -/
structure DumpPoint where
  showsStack : Bool
  words : List Word
  deriving DecidableEq, Repr

/-- The dump points by address, and the name of the file that they were read from. -/
structure DumpPlan where
  fileName : String
  points : List (Word × DumpPoint)
  deriving DecidableEq, Repr

namespace Dump

open Text

/-- The words that are shown from the stack pointer on. -/
def stackDepth : Nat := 8

/-- The horizontal line of a box. -/
def border : String :=
  line (" +" ++ String.join (List.replicate 4 (rule 17 ++ "+")))

def registerCell (m : Machine) (r : Register) : String :=
  padLeft 4 r.name ++ ": " ++ upperHex 8 (m.get r).toNat

def registerRow (m : Machine) (row : List Register) : String :=
  line (" | " ++ String.intercalate "  | " (row.map (registerCell m)) ++ "  |")

def controlCell (m : Machine) (r : ControlRegister) : String :=
  r.name ++ ": " ++ upperHex 8 (m.control r).toNat

def controlRow (m : Machine) : String :=
  line (" | " ++ padRight 69 (String.intercalate "  " (ControlRegister.all.map (controlCell m))) ++
    "|")

def registerBox (m : Machine) : String :=
  border ++ String.join ((Machine.rowsOfFour Register.all).map (registerRow m)) ++ border ++
    controlRow m ++ border

def memoryRow (m : Machine) (address : Word) : String :=
  line (" | " ++ upperHex 8 address.toNat ++ " : " ++ upperHex 8 (m.load address).toNat ++
    blanks 51 ++ "|")

def memoryBox (m : Machine) (addresses : List Word) : String :=
  String.join (addresses.map (memoryRow m)) ++ border

/-- The addresses of the words on top of the stack. -/
def stackAddresses (m : Machine) : List Word :=
  (List.range stackDepth).map fun i => m.get .stackPointer + 4 * UInt32.ofNat i

def pointText (m : Machine) (address : Word) (p : DumpPoint) : String :=
  line (" Dump after 0x" ++ upperHex 8 address.toNat) ++ registerBox m ++
    (if p.showsStack then memoryBox m (stackAddresses m) else "") ++ memoryBox m p.words

end Dump

namespace Observer

/-- Shows the points of a plan and, if asked, the registers after every other step. -/
def dump (plan : Option DumpPlan) (isComplete : Bool) : Observer where
  announcement :=
    (if isComplete then Text.line " * Dump all" else "") ++
      match plan with
      | some p => Text.line (s!" * Dump[{p.points.length}] " ++ Text.quoted p.fileName)
      | none => ""
  afterStep := fun _ r m =>
    match plan.bind fun p => p.points.lookup r.address with
    | some point => Dump.pointText m r.address point
    | none => if isComplete then Dump.registerBox m else ""

end Observer

end Toolchain32
