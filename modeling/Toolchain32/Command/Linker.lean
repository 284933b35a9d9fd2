import Toolchain32.Command.Tool
import Toolchain32.Link.LayoutFile
import Toolchain32.Link.Map
import Toolchain32.Link.Report

/-!
# The linker

`sslink` links object files and writes the memory image if asked, and a map of the link.
-/

namespace Toolchain32

namespace Linker

open Script

def rules : List OptionRule :=
  [{ name := "output", short := some 'o', kind := .single },
    { name := "hex", short := none, kind := .flag },
    { name := "place", short := none, kind := .repeated },
    { name := "layout", short := none, kind := .single },
    { name := "map", short := none, kind := .single },
    { name := "verbose", short := some 'v', kind := .flag }]

/-- `-hex` and `-place=` may be written with one dash. -/
def respell (arg : String) : String :=
  if arg = "-hex" then "--hex"
  else match Text.after? "-place=" arg.toList with
    | some value => "--place=" ++ String.ofList value
    | none => arg

/-- A file to be read is announced first. -/
def readAnnounced (path : String) : Script String := do
  printLine ("  < " ++ path)
  readFile path

def readArtifact (path : String) : Script Artifact := do
  orFail LinkError.message (Artifact.parse path (← readAnnounced path))

/-- The placements of the layout file, and after them those of the command line. -/
def readPlacements (a : Arguments) : Script (List Placement) := do
  let ofFile ← match a.value? "layout" with
    | some path => orFail LinkError.message (LayoutFile.read path (← readAnnounced path))
    | none => pure []
  return ofFile ++ (← orFail LinkError.message ((a.values "place").mapM Placement.read))

def regionLine (r : Region) : String :=
  "  " ++ Text.colored .cyan (Text.upperHex 8 r.start.toNat) ++ " " ++
    Text.padLeft 8 (toString r.size.toNat) ++ " bytes  " ++ r.name

def writeImage (a : Arguments) (image : Image) : Script Unit := do
  let path := (a.value? "output").getD "out.hex"
  if a.has "hex" then
    printLine s!"  > {path} ({image.size} words)"
    writeFile path image.print
  else
    printLine ("  " ++ Text.colored .yellow "skipped" ++ ": pass -hex to write " ++ path)

def writeMap (a : Arguments) (l : Linked) : Script Unit := do
  match a.value? "map" with
  | some path =>
    printLine ("  > " ++ path)
    writeFile path (LinkMap.ofLinked l).print
  | none => pure ()

def script (a : Arguments) : Script Unit := do
  printLine "SS32 Linker"
  printLine "1. Read Objects"
  let artifacts ← a.positionals.mapM readArtifact
  let placements ← readPlacements a
  printLine "2. Link"
  let l ← orFail LinkError.message (link artifacts placements)
  l.regions.forM fun r => printLine (regionLine r)
  printLine "3. Write Image"
  writeImage a l.image
  writeMap a l
  if a.has "verbose" then print (LinkReport.print l)

end Linker

def linker : Tool where
  name := "sslink"
  title := "sslink"
  usage := "Usage: sslink [--output <file>] [--hex] [--place <section>@<address>] " ++
    "[--layout <file>] [--map <file>] [--verbose] <inputs>"
  rules := Linker.rules
  leastPositionals := 1
  mostPositionals := none
  respell := Linker.respell
  script := Linker.script

end Toolchain32
