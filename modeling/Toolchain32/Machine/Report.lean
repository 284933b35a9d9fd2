import Toolchain32.Machine
import Toolchain32.Text.Column
import Toolchain32.Text.Numeral

/-!
# Machine reports

The values of the sixteen general registers by number, four to a row.
-/

namespace Toolchain32

namespace Machine

open Text

def reportCell (m : Machine) (r : Register) : String :=
  padLeft 6 s!"r{r.index.val}=0x" ++ upperHex 8 (m.get r).toNat

/-- The rows of a list, four to a row. -/
def rowsOfFour {α : Type} : List α → List (List α)
  | a :: b :: c :: d :: rest => [a, b, c, d] :: rowsOfFour rest
  | [] => []
  | rest => [rest]

def report (m : Machine) : String :=
  let rows := rowsOfFour (Register.all.map m.reportCell)
  line "Emulated processor state:" ++
    String.join (rows.map fun row => line ("   " ++ String.intercalate "   " row))

end Machine

end Toolchain32
