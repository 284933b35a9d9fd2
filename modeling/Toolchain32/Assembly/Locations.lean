import Toolchain32.Assembly.Error

/-!
# Location counters

Each section has a counter of the bytes put into it so far, and one section may be the current
one. Counters are kept in the order in which the sections were opened first, and stay below 2^32.
-/

namespace Toolchain32

structure Locations where
  counters : List (String × Nat)
  current : Option String
  deriving DecidableEq, Repr

namespace Locations

def empty : Locations := ⟨[], none⟩

def isOpened (l : Locations) (name : String) : Bool := l.counters.any (·.1 == name)

def counter (l : Locations) (name : String) : Nat := (l.counters.lookup name).getD 0

/-- The section becomes the current one, with a fresh counter if it is new. -/
def enter (l : Locations) (name : String) : Locations :=
  if l.isOpened name then { l with current := some name }
  else ⟨l.counters ++ [(name, 0)], some name⟩

/-- The section's counter moves on by so many bytes. -/
def advance (l : Locations) (name : String) (bytes : Nat) : Except AssemblyError Locations :=
  if l.counter name + bytes < 0x100000000 then
    .ok { l with counters := l.counters.map fun c => if c.1 = name then (c.1, c.2 + bytes) else c }
  else .error (.sectionOverflow name bytes)

/-- The same sections with no byte in them, none of them current. -/
def restarted (l : Locations) : Locations := ⟨l.counters.map fun c => (c.1, 0), none⟩

end Locations

end Toolchain32
