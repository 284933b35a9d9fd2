import Toolchain32.Command.Disk
import Toolchain32.ErrorKind
import Toolchain32.Text.Column
import Toolchain32.Text.Style

/-!
# Scripts

A script is what a tool does, one effect after another: it prints, reads and writes files, and ends
with a result or in failure. `Script.runOn` carries it out on a disk.
-/

namespace Toolchain32

/-- Continuations are functions, so that a long run prints while it goes on. -/
inductive Script (α : Type)
  | done (a : α)
  | fail
  | say (text : String) (next : Unit → Script α)
  /-- A text that is printed apart from the output. -/
  | complain (text : String) (next : Unit → Script α)
  | read (path : String) (next : Option String → Script α)
  | write (path text : String) (next : Bool → Script α)

/-- A file that cannot be used. -/
inductive FileError
  | cannotOpen (path : String)
  | cannotCreate (path : String)
  deriving DecidableEq, Repr

namespace FileError

def message : FileError → String
  | cannotOpen path => "Failed to open file: " ++ path
  | cannotCreate path => "Failed to create file: " ++ path

def kind (_ : FileError) : ErrorKind := .file

end FileError

namespace Script

variable {α β : Type}

protected def bind : Script α → (α → Script β) → Script β
  | done a, f => f a
  | fail, _ => fail
  | say text next, f => say text fun u => (next u).bind f
  | complain text next, f => complain text fun u => (next u).bind f
  | read path next, f => read path fun answer => (next answer).bind f
  | write path text next, f => write path text fun isWritten => (next isWritten).bind f

instance : Monad Script where
  pure := done
  bind := Script.bind

@[simp] theorem done_bind (a : α) (f : α → Script β) : (done a).bind f = f a := rfl

@[simp] theorem fail_bind (f : α → Script β) : (fail : Script α).bind f = fail := rfl

@[simp] theorem bind_done (s : Script α) : s.bind done = s := by
  induction s with
  | done a => rfl
  | fail => rfl
  | say text next ih => simp [Script.bind, ih]
  | complain text next ih => simp [Script.bind, ih]
  | read path next ih => simp [Script.bind, ih]
  | write path text next ih => simp [Script.bind, ih]

def print (text : String) : Script Unit := say text done

def printLine (text : String) : Script Unit := print (Text.line text)

def complaint (text : String) : Script Unit := complain text done

/-- The message of an error is printed apart, and the script fails. -/
def failWith (message : String) : Script α := do
  complaint (Text.failureLine message)
  fail

/-- A result, or failure with the message of the error. -/
def orFail {ε : Type} (message : ε → String) : Except ε α → Script α
  | .ok a => done a
  | .error e => failWith (message e)

def readFile (path : String) : Script String :=
  read path fun
    | some text => done text
    | none => failWith (FileError.cannotOpen path).message

def writeFile (path text : String) : Script Unit :=
  write path text fun isWritten =>
    if isWritten then done () else failWith (FileError.cannotCreate path).message

end Script

/-- What a script has printed, and the disk behind it. -/
structure Session where
  output : String
  complaints : String
  disk : Disk

namespace Session

def say (s : Session) (text : String) : Session := { s with output := s.output ++ text }

def complain (s : Session) (text : String) : Session :=
  { s with complaints := s.complaints ++ text }

/-- The session after a text was written to the end of a path, if it can be. -/
def write? (s : Session) (path text : String) : Option Session :=
  match Disk.Place.ofPath path with
  | .file name => some { s with disk := s.disk.put name text }
  | .device .output => some (s.say text)
  | .device .complaints => some (s.complain text)
  | .device _ => some s
  | _ => none

end Session

namespace Script

variable {α : Type}

/-- A script is carried out; there is no result if it fails. -/
def runFrom (s : Session) : Script α → Session × Option α
  | done a => (s, some a)
  | fail => (s, none)
  | say text next => runFrom (s.say text) (next ())
  | complain text next => runFrom (s.complain text) (next ())
  | read path next => runFrom s (next (s.disk.read? path))
  | write path text next =>
    match s.write? path text with
    | some s => runFrom s (next true)
    | none => runFrom s (next false)

def runOn (disk : Disk) (script : Script α) : Session × Option α :=
  script.runFrom ⟨"", "", disk⟩

end Script

end Toolchain32
