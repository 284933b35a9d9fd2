import Toolchain32.Assembly
import Toolchain32.Assembly.Listing
import Toolchain32.Command.Tool
import Toolchain32.Object.Printer

/-!
# The assembler

`ssasm` assembles a source file and writes its object file, next to the source unless told
otherwise.
-/

namespace Toolchain32

namespace Assembler

open Script

def rules : List OptionRule :=
  [{ name := "output", short := some 'o', kind := .single },
    { name := "dump", short := some 'd', kind := .flag },
    { name := "strict-sections", short := none, kind := .flag }]

/-- The file name in a path, without its extension. A dot at the beginning starts no extension. -/
def stem (name : List Char) : List Char :=
  match (name.reverse.dropWhile (· != '.')).reverse with
  | [] | ['.'] => name
  | front => front.dropLast

/-- The name of the object of a source: the extension becomes `o`. Of two dots and an extension
only the dots are left, which lead to the directory above and take none. -/
def objectName (name : List Char) : List Char :=
  if stem name = ['.'] then "..".toList else stem name ++ ".o".toList

/-- The path of the object of a source, which stands next to it. -/
def objectPath (path : String) : String :=
  match (Text.separate '/' path.toList).reverse with
  | [] => path
  | name :: outer =>
    if Disk.Place.isName name then
      String.intercalate "/" ((outer.reverse ++ [objectName name]).map String.ofList)
    else path

def options (a : Arguments) : AssemblyOptions :=
  if a.has "strict-sections" then ⟨none⟩ else {}

def assembled (a : Arguments) (path source : String) : Script Assembled :=
  match assemble (options a) source with
  | .ok result => done result
  | .error e => do
    complaint (e.diagnosis path source)
    fail

def script (a : Arguments) : Script Unit := do
  let path := a.positionals.headD ""
  let target := (a.value? "output").getD (objectPath path)
  printLine "SS32 Assembler"
  printLine "1. Read Source"
  printLine ("  < " ++ path)
  let source ← readFile path
  printLine "2. Assemble (pass 1, pass 2)"
  let result ← assembled a path source
  printLine "3. Write Object"
  printLine ("  > " ++ target)
  writeFile target result.object.print
  if a.has "dump" then print (Listing.print path source result.listing)

end Assembler

def assembler : Tool where
  name := "ssasm"
  title := "ssasm"
  usage := "Usage: ssasm [--output <file>] [--dump] [--strict-sections] <input>"
  rules := Assembler.rules
  leastPositionals := 1
  mostPositionals := some 1
  script := Assembler.script

end Toolchain32
