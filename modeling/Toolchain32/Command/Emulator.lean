import Toolchain32.Command.Tool
import Toolchain32.Machine.DumpPlan

/-!
# The emulator

`ssemu` runs a memory image until it halts, traps or reaches a limit, while observers print.
-/

namespace Toolchain32

/-- Where a watched run ended: the machine, the completed steps, and the trap that stopped it. -/
structure Ending where
  machine : Machine
  steps : Nat
  trap : Option Trap

namespace Emulator

open Script

/-- At most so many steps from the step of the given number on, each of them reported. -/
def watch (observers : List Observer) : Nat → Nat → Machine → Script Ending
  | 0, time, m => done ⟨m, time, none⟩
  | n + 1, time, m =>
    match m.step with
    | (m, .error trap) => done ⟨m, time, some trap⟩
    | (m, .ok r) =>
      say (Observer.reports observers time r m) fun _ =>
        if m.halted then done ⟨m, time + 1, none⟩ else watch observers n (time + 1) m

/-- A run with the announcements of its observers in front. -/
def watchAll (observers : List Observer) (limit : Nat) (m : Machine) : Script Ending := do
  print (Observer.announcements observers)
  watch observers limit 0 m

def observers (isTraced : Bool) (plan : Option DumpPlan) (isComplete : Bool) : List Observer :=
  (if isTraced then [Observer.trace] else []) ++ [Observer.dump plan isComplete]

/-- A limit is a number of 64 bits, with an optional plus sign. -/
def limit? (s : String) : Option Nat :=
  let digits := match s.toList with
    | '+' :: rest => rest
    | s => s
  (Text.natural? 10 digits).filter (· < 0x10000000000000000)

/-- The limit of a run that is given none. -/
def endless : Nat := 0x10000000000000000 - 1

def rules : List OptionRule :=
  [{ name := "tmax", short := some 't', kind := .single, accepts := fun s => (limit? s).isSome },
    { name := "dump-cfg", short := some 'd', kind := .single },
    { name := "dump-all", short := some 'a', kind := .flag },
    { name := "trace", short := none, kind := .flag }]

/-- What can be wrong with the files of a run. -/
inductive LoadError
  | malformedImage (path : String) (e : Image.FormatError)
  | malformedPlan (path : String) (e : Yaml.Error)
  deriving DecidableEq, Repr

namespace LoadError

def message : LoadError → String
  | malformedImage path e => s!"Malformed image {path}: " ++ e.message
  | malformedPlan path e => s!"Malformed dump config {path}: " ++ e.message

def kind (_ : LoadError) : ErrorKind := .format

end LoadError

def loadImage (path text : String) : Except LoadError Image :=
  match Image.parse text with
  | .ok image => .ok image
  | .error e => .error (.malformedImage path e)

def loadPlan (path text : String) : Except LoadError DumpPlan :=
  match DumpPlan.read path text with
  | .ok plan => .ok plan
  | .error e => .error (.malformedPlan path e)

def readPlan (a : Arguments) : Script (Option DumpPlan) := do
  match a.value? "dump-cfg" with
  | some path => some <$> orFail LoadError.message (loadPlan path (← readFile path))
  | none => return none

def border : String := "+" ++ Text.rule 47 ++ "+"

/-- The machine with the image of a file. -/
def readMachine (path : String) : Script Machine := do
  let image ← orFail LoadError.message (loadImage path (← readFile path))
  if image.size = 0 then
    printLine (Text.colored .yellow "warning" ++ ": " ++ path ++ " holds no words")
  return Machine.start image

/-- A trap fails the script, after the report of the machine. -/
def conclude (e : Ending) : Script Unit := do
  match e.trap with
  | some trap =>
    complaint e.machine.report
    failWith trap.message
  | none =>
    printLine ("   " ++ Text.rule 65)
    if e.machine.halted then printLine "   Emulated processor executed halt instruction"
    else
      printLine ("   " ++ Text.colored .yellow s!"Stopped after {e.steps} instructions")
    print ("   " ++ e.machine.report)

def script (a : Arguments) : Script Unit := do
  let path := a.positionals.headD "out.hex"
  printLine "SS32 Emulator"
  printLine border
  printLine ("| " ++ Text.padRight 45 path ++ " |")
  printLine border
  let m ← readMachine path
  printLine "[INIT]"
  let plan ← readPlan a
  let limit := ((a.value? "tmax").bind limit?).getD endless
  conclude (← watchAll (observers (a.has "trace") plan (a.has "dump-all")) limit m)

end Emulator

def emulator : Tool where
  name := "ssemu"
  title := "SS32 Emulator"
  usage := "Usage: ssemu [--tmax <count>] [--dump-cfg <file>] [--dump-all] [--trace] [input]"
  rules := Emulator.rules
  leastPositionals := 0
  mostPositionals := some 1
  script := Emulator.script

end Toolchain32
