import Toolchain32.Command.Place
import Toolchain32.Entries

/-!
# Disks

A disk is the working directory with its files.
-/

namespace Toolchain32

/-- The files by name. A file whose bytes are not UTF-8 has no text. -/
structure Disk where
  files : List (String × Option String)

namespace Disk

/-- The text at the end of a path, if there is one. -/
def read? (d : Disk) (path : String) : Option String :=
  match Place.ofPath path with
  | .file name => (d.files.lookup name).join
  | .device .null => some ""
  | _ => none

/-- The disk with a file of the given text. -/
def put (d : Disk) (name text : String) : Disk := ⟨putEntry name (some text) d.files⟩

/-- The files of a disk that an earlier disk does not hold, or not with that text. -/
def changesSince (before d : Disk) : List (String × Option String) :=
  d.files.filter fun f => before.files.lookup f.1 != some f.2

end Disk

end Toolchain32
