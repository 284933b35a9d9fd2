/-!
# Kinds of error

The coarse classification that every stage of the toolchain shares.
-/

namespace Toolchain32

inductive ErrorKind
  /-- A text that does not follow the source language or the command syntax. -/
  | wording
  /-- A number or an address that does not fit. -/
  | range
  /-- Objects that do not fit together. -/
  | link
  /-- A file that cannot be read or written. -/
  | file
  /-- A malformed data file. -/
  | format
  /-- A word that cannot be executed. -/
  | runtime
  deriving DecidableEq, Repr

end Toolchain32
