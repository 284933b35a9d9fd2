import Toolchain32.Link.Placement

/-!
# Laying out sections

Regions are claimed in ascending address order in the 32-bit address space: `LayoutCall.place`
claims one at a fixed address, `LayoutCall.append` one right after everything claimed so far.
`layout` places the sections that have a placement, by ascending address, and appends the others in
their order.
-/

namespace Toolchain32

structure Region where
  name : String
  start : Word
  size : Word
  deriving DecidableEq, Repr

/-- The address after the last byte of a region. -/
def Region.stop (r : Region) : Nat := r.start.toNat + r.size.toNat

/-- The number of byte addresses. -/
def addressSpace : Nat := 0x100000000

structure Layout where
  regions : List Region
  /-- The highest end address of a claim so far. -/
  top : Nat
  deriving DecidableEq, Repr

namespace Layout

def empty : Layout := ⟨[], 0⟩

end Layout

/-- A call that may fail, and that changes a layout in place: what it did before it failed stays. -/
abbrev LayoutCall := ExceptT LinkError (StateM Layout)

namespace LayoutCall

/-- The answer of a call and the layout behind it. -/
def outcome {α : Type} (call : LayoutCall α) (l : Layout) : Except LinkError α × Layout :=
  call.run.run l

/-- A region of the given begin and size is added, if it ends in the address space. -/
def claim (name : String) (start size : Nat) : LayoutCall Unit := do
  let stop := start + size
  if addressSpace < stop then throw (.addressOverflow name start size)
  let region : Region := ⟨name, UInt32.ofNat start, UInt32.ofNat size⟩
  modify fun l => { l with regions := l.regions ++ [region] }
  modify fun l => { l with top := max l.top stop }

/-- A region at a fixed address, which must not lie below the end of the last region. -/
def place (name : String) (address : Word) (size : Nat) : LayoutCall Unit := do
  if let some previous := (← get).regions.getLast? then
    if address.toNat < previous.stop then
      throw (.placementOverlap name address previous.name previous.stop)
  claim name address.toNat size

/-- A region right after everything claimed so far. The answer is where it begins. -/
def append (name : String) (size : Nat) : LayoutCall Word := do
  let start := (← get).top
  if addressSpace ≤ start then throw (.addressOverflow name start size)
  claim name start size
  return UInt32.ofNat start

end LayoutCall

namespace Layout

/-- The layout behind a call, if the call succeeds. -/
def after {α : Type} (l : Layout) (call : LayoutCall α) : Except LinkError Layout :=
  match call.outcome l with
  | (.ok _, next) => .ok next
  | (.error e, _) => .error e

def claim (l : Layout) (name : String) (start size : Nat) : Except LinkError Layout :=
  l.after (LayoutCall.claim name start size)

def place (l : Layout) (name : String) (address : Word) (size : Nat) : Except LinkError Layout :=
  l.after (LayoutCall.place name address size)

def append (l : Layout) (name : String) (size : Nat) : Except LinkError Layout :=
  l.after (LayoutCall.append name size)

end Layout

/-- Each placement is the only one of its section, and its section exists. -/
def checkPlacements (sections : List (String × Nat)) :
    List String → List Placement → Except LinkError Unit
  | _, [] => .ok ()
  | seen, p :: rest =>
    if seen.contains p.sectionName then .error (.duplicatePlacement p.sectionName)
    else if sections.any (·.1 == p.sectionName) then
      checkPlacements sections (p.sectionName :: seen) rest
    else .error (.sectionNotFound p.sectionName)

/-- Placements by ascending address; those of one address keep their order. -/
def byAddress (placements : List Placement) : List Placement :=
  placements.mergeSort fun p q => p.address ≤ q.address

/-- The regions of sections with their sizes. -/
def layout (sections : List (String × Nat)) (placements : List Placement) :
    Except LinkError (List Region) := do
  checkPlacements sections [] placements
  let l ← (byAddress placements).foldlM
    (fun l p => l.place p.sectionName p.address ((sections.lookup p.sectionName).getD 0))
    Layout.empty
  let others := sections.filter fun s => !placements.any (·.sectionName == s.1)
  let l ← others.foldlM (fun l s => l.append s.1 s.2) l
  return l.regions

end Toolchain32
