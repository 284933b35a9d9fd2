import Toolchain32.Text.Split

/-!
# Registers

Sixteen general registers and three control registers. `r14` is the stack pointer and `r15` the
program counter. A register is read with or without a leading percent sign, in either case.
-/

namespace Toolchain32

/-- A general register, by its number. -/
structure Register where
  index : Fin 16
  deriving DecidableEq, Repr

namespace Register

def zero : Register := ⟨0, by decide⟩

def stackPointer : Register := ⟨14, by decide⟩

def programCounter : Register := ⟨15, by decide⟩

/-- The register of a number; a number beyond the last register stands for the zero register. -/
def ofByte (n : Nat) : Register := if h : n < 16 then ⟨n, h⟩ else zero

def all : List Register := (List.finRange 16).map mk

def name (r : Register) : String :=
  if r = stackPointer then "sp" else if r = programCounter then "pc" else s!"r{r.index.val}"

/-- Every spelling of a general register. -/
def spellings : List (String × Register) :=
  all.map (fun r => (s!"r{r.index.val}", r)) ++ [("sp", stackPointer), ("pc", programCounter)]

end Register

/-- The control registers. -/
inductive ControlRegister
  | status | handler | cause
  deriving DecidableEq, Repr

namespace ControlRegister

def all : List ControlRegister := [status, handler, cause]

def index : ControlRegister → Nat
  | status => 0
  | handler => 1
  | cause => 2

def ofNat? : Nat → Option ControlRegister
  | 0 => some status
  | 1 => some handler
  | 2 => some cause
  | _ => none

def name : ControlRegister → String
  | status => "status"
  | handler => "handler"
  | cause => "cause"

def spellings : List (String × ControlRegister) := all.map fun r => (r.name, r)

theorem ofNat?_index (r : ControlRegister) : ofNat? r.index = some r := by
  cases r <;> rfl

end ControlRegister

/-- A register's spelling without the optional percent sign, in lower case. -/
def bareSpelling (s : List Char) : String :=
  String.ofList (((Text.after? "%" s).getD s).map Char.toLower)

def Register.read? (s : List Char) : Option Register := Register.spellings.lookup (bareSpelling s)

def ControlRegister.read? (s : List Char) : Option ControlRegister :=
  ControlRegister.spellings.lookup (bareSpelling s)

end Toolchain32
