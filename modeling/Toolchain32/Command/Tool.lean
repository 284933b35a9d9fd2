import Toolchain32.Command.Arguments
import Toolchain32.Command.Script

/-!
# Tools

A tool reads its arguments by its rules and carries out its script. It exits with 0 if the script
ends, with 1 if it fails and with 2 if the arguments are wrong.
-/

namespace Toolchain32

structure Tool where
  name : String
  /-- The name that the version is shown with. -/
  title : String
  usage : String
  rules : List OptionRule
  leastPositionals : Nat
  mostPositionals : Option Nat
  /-- Another spelling of an argument, brought to the usual one. -/
  respell : String → String := id
  script : Arguments → Script Unit

/-- How a tool ends unless it fails. -/
inductive Status
  | success
  | misuse
  deriving DecidableEq, Repr

/-- The exit code of a result, which is missing after a failure. -/
def Status.exitCode : Option Status → UInt32
  | some success => 0
  | none => 1
  | some misuse => 2

namespace Tool

def version : String := "0.1.0"

def arguments (t : Tool) (args : List String) : Except Dismissal Arguments :=
  Arguments.read t.rules t.leastPositionals t.mostPositionals (args.map t.respell)

def run (t : Tool) (args : List String) : Script Status :=
  match t.arguments args with
  | .ok a => do
    t.script a
    return .success
  | .error .help => do
    Script.printLine t.usage
    return .success
  | .error .version => do
    Script.printLine (t.title ++ " " ++ version)
    return .success
  | .error .misuse => do
    Script.complaint (Text.line t.usage)
    return .misuse

end Tool

end Toolchain32
