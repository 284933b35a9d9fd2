import Toolchain32.Link.Layout

/-!
# Merging artifacts

Sections of one name are merged into one region, in which every artifact that has the section
holds a share; shares are stacked in the order of the artifacts. `Merged` holds the regions, where
each share begins, and the merged symbol table: the reserved entry, a symbol for each region, then
the defined symbols of the artifacts.
-/

namespace Toolchain32

/-- An object taking part in a link, and its name for diagnostics. -/
structure Artifact where
  name : String
  object : Object

def Artifact.parse (name text : String) : Except LinkError Artifact :=
  match Object.parse text with
  | .ok object => .ok ⟨name, object⟩
  | .error e => .error (.malformedObject name e)

/-- The sizes with one more section added to those of its name. -/
def addSize (name : String) (size : Nat) : List (String × Nat) → List (String × Nat)
  | [] => [(name, size)]
  | (n, total) :: rest =>
    if n = name then (n, total + size) :: rest else (n, total) :: addSize name size rest

/-- The size of every section over all objects, in order of first appearance. -/
def mergedSizes (objects : List Object) : List (String × Nat) :=
  (objects.flatMap (·.sections)).foldl (fun sizes s => addSize s.name s.size.toNat sizes) []

/-- Where the share of each object begins in a region that begins at `start`. -/
def shareStarts (name : String) : Word → List Object → List (Option Word)
  | _, [] => []
  | start, o :: rest =>
    match o.section? name with
    | some s => some start :: shareStarts name (start + s.size) rest
    | none => none :: shareStarts name start rest

structure Merged where
  regions : List Region
  /-- By section name, where each artifact's share begins. -/
  shares : List (String × List (Option Word))
  symbols : List ObjectSymbol

namespace Merged

/-- Where the share of the `i`-th artifact in a section begins. -/
def shareStart? (shares : List (String × List (Option Word))) (i : Nat) (name : String) :
    Option Word :=
  (shares.lookup name).bind fun starts => (starts[i]?).join

/-- The region's place in the layout, counted from one: the id of its symbol. -/
def regionId? (regions : List Region) (name : String) : Option Nat :=
  (regions.findIdx? (·.name == name)).map (· + 1)

/-- A symbol of the `i`-th artifact at its final address, under the symbol of its region. One that
no section owns keeps its value. -/
def rebaseSymbol (regions : List Region) (shares : List (String × List (Option Word)))
    (i : Nat) (o : Object) (s : ObjectSymbol) : ObjectSymbol :=
  let owner := ((o.symbolById? s.owner).map (·.name)).getD ""
  match shareStart? shares i owner, regionId? regions owner with
  | some start, some id => { s with value := start + s.value, owner := id }
  | _, _ => { s with owner := 0 }

/-- The symbols that an artifact adds: all but the reserved entry, section symbols and externals. -/
def keptSymbols (o : Object) : List ObjectSymbol :=
  (o.symbols.drop 1).filter fun s => s.kind != .ofSection && s.binding != .external

def regionSymbol (r : Region) : ObjectSymbol := ⟨0, r.name, r.start, .ofSection, 0, .localOnly⟩

/-- The symbols with their places in the table as ids; a region's symbol owns itself. -/
def numbered (symbols : List ObjectSymbol) : List ObjectSymbol :=
  symbols.zipIdx.map fun (s, i) =>
    { s with id := i, owner := if s.kind = .ofSection then i else s.owner }

def ofRegions (objects : List Object) (regions : List Region) : Merged :=
  let shares := regions.map fun r => (r.name, shareStarts r.name r.start objects)
  let added := objects.zipIdx.flatMap fun (o, i) =>
    (keptSymbols o).map (rebaseSymbol regions shares i o)
  { regions, shares,
    symbols := numbered (ObjectSymbol.null :: (regions.map regionSymbol ++ added)) }

def start? (m : Merged) (i : Nat) (name : String) : Option Word := shareStart? m.shares i name

end Merged

end Toolchain32
