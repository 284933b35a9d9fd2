import Toolchain32.Text.Split

/-!
# Places

`Disk.Place.ofPath` tells where a path leads: to a file of the working directory, to a device, to a
directory or nowhere. A path is walked part by part, from the root if it begins with a slash and
from the working directory if not. An empty part and a single dot stay where they are, two dots lead
to the directory above, and nothing lies below a file.
-/

namespace Toolchain32.Disk

/-- What a path can lead to other than files. -/
inductive Device
  /-- It is empty, and swallows what is written to it. -/
  | null
  /-- It has no end, and swallows what is written to it. -/
  | endless
  /-- What a tool prints. -/
  | output
  /-- What a tool prints apart from its output. -/
  | complaints
  deriving DecidableEq, Repr

/-- The devices by name. What is put into a tool is empty. -/
def Device.names : List (String × Device) :=
  [("null", null), ("stdin", null), ("zero", endless), ("random", endless), ("urandom", endless),
    ("stdout", output), ("stderr", complaints)]

inductive Place
  /-- The working directory. -/
  | here
  /-- A file of the working directory, whether it is there or not. -/
  | file (name : String)
  /-- The directory of the devices. -/
  | devices
  | device (d : Device)
  /-- Another directory, so many directories below the root. -/
  | directory (depth : Nat)
  | nowhere
  deriving DecidableEq, Repr

namespace Place

/-- A part of a path has so many bytes at most. -/
def longestName : Nat := 255

def longestPath : Nat := 4095

/-- How many directories lie above the working directory. -/
def depth : Nat := 2

/-- The directories that lie next to the one of the devices. -/
def systemDirectories : List String := ["etc", "home", "proc", "sys", "tmp", "usr", "var"]

/-- Whether a part of a path stays where it is. -/
def stays (part : List Char) : Bool := part.isEmpty || part == ['.']

/-- Whether a part of a path leads to the directory above. -/
def ascends (part : List Char) : Bool := part == ['.', '.']

/-- Whether a part of a path names a file or a directory. -/
def isName (part : List Char) : Bool := !stays part && !ascends part

/-- What a name stands for in the root. -/
def inRoot (name : String) : Place :=
  if name = "dev" then devices
  else if systemDirectories.contains name then directory 1
  else nowhere

/-- The place that one more part of a path leads to. -/
def enter (p : Place) (part : List Char) : Place :=
  let name := String.ofList part
  if longestName < name.utf8ByteSize then nowhere
  else match p with
    | here => if stays part then here else if ascends part then directory (depth - 1) else file name
    | devices =>
      if stays part then devices
      else if ascends part then directory 0
      else (Device.names.lookup name).elim nowhere device
    | directory n =>
      if stays part then directory n
      else if ascends part then directory (n - 1)
      else if n = 0 then inRoot name
      else nowhere
    | file _ | device _ | nowhere => nowhere

def ofPath (path : String) : Place :=
  if longestPath < path.utf8ByteSize then nowhere
  else
    let start := if path.toList.head? = some '/' then directory 0 else here
    (Text.separate '/' path.toList).foldl enter start

example : ofPath "./x.s" = file "x.s" ∧ ofPath "x.s/" = nowhere ∧ ofPath "" = here ∧
    ofPath "/dev/../dev//null" = device .null := by
  decide +kernel

/-- Nothing lies below a file. -/
theorem enter_file (name : String) (part : List Char) : (file name).enter part = nowhere := by
  simp [enter]

/-- Only a plain name leads from the working directory to a file. -/
theorem enter_here_eq_file {part : List Char} {name : String} (h : here.enter part = file name) :
    isName part = true ∧ name = String.ofList part := by
  simp only [enter] at h
  split at h
  · cases h
  · split at h
    · cases h
    · split at h
      · cases h
      · cases h
        exact ⟨by simp_all [isName], rfl⟩

theorem foldl_enter_nowhere (parts : List (List Char)) : parts.foldl enter nowhere = nowhere := by
  induction parts with
  | nil => rfl
  | cons part rest ih => simpa [enter] using ih

end Place

end Toolchain32.Disk
