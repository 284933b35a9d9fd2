import Toolchain32.Command.Assembler
import Toolchain32.Command.Emulator
import Toolchain32.Command.Linker

/-!
# Commands

The tools by name, and the run of one of them on a disk.
-/

namespace Toolchain32

def tools : List Tool := [assembler, linker, emulator]

def tool? (name : String) : Option Tool := tools.find? (·.name == name)

namespace Tool

/-- What a command printed, the disk behind it, and its exit code. -/
def runOn (t : Tool) (disk : Disk) (args : List String) : Session × UInt32 :=
  let (session, status) := (t.run args).runOn disk
  (session, Status.exitCode status)

end Tool

end Toolchain32
