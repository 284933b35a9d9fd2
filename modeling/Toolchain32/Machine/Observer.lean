import Toolchain32.Instruction.Disassembly
import Toolchain32.Machine.Step

/-!
# Observers

An observer watches a run from outside: it announces itself before the first step and prints a text
after each completed one. It cannot change the machine. `Observer.trace` prints the instruction that
was executed.
-/

namespace Toolchain32

structure Observer where
  announcement : String
  /-- What is printed after the step of the given number, from the machine after it. -/
  afterStep : Nat → Retired → Machine → String

namespace Observer

open Text

/-- The disassembly of a word, empty if it has none. -/
def disassembly (word : Word) : String :=
  match Instruction.decode word with
  | .ok i => i.disassemble
  | .error _ => ""

def traceLine (time : Nat) (r : Retired) : String :=
  "[" ++ padLeft 6 (toString time) ++ "] " ++ colored .cyan (upperHex 8 r.address.toNat) ++ ": " ++
    upperHex 8 r.word.toNat ++ "  " ++ disassembly r.word

/-- Prints every executed instruction. -/
def trace : Observer where
  announcement := line " * Trace"
  afterStep := fun time r _ => line (traceLine time r)

/-- What a list of observers announces, in their order. -/
def announcements (observers : List Observer) : String :=
  String.join (observers.map (·.announcement))

/-- What a list of observers prints after a step, in their order. -/
def reports (observers : List Observer) (time : Nat) (r : Retired) (m : Machine) : String :=
  String.join (observers.map fun o => o.afterStep time r m)

end Observer

end Toolchain32
