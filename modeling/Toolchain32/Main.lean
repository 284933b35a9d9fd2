import Toolchain32.Command

/-!
# The command line

The first argument names the tool and the others are its arguments.
-/

namespace Toolchain32

/-- A script is carried out on the files of the system. -/
def Script.perform {α : Type} : Script α → IO (Option α)
  | done a => return some a
  | fail => return none
  | say text next => do
    IO.print text
    perform (next ())
  | complain text next => do
    IO.eprint text
    perform (next ())
  | read path next => do
    let text ← try some <$> IO.FS.readFile path catch _ => pure none
    perform (next text)
  | write path text next => do
    let isWritten ← try
        IO.FS.writeFile path text
        pure true
      catch _ => pure false
    perform (next isWritten)

end Toolchain32

def main (args : List String) : IO UInt32 := do
  match args with
  | name :: rest =>
    match Toolchain32.tool? name with
    | some tool => return Toolchain32.Status.exitCode (← (tool.run rest).perform)
    | none =>
      IO.eprintln "The first argument is ssasm, sslink or ssemu."
      return 2
  | [] =>
    IO.eprintln "The first argument is ssasm, sslink or ssemu."
    return 2
