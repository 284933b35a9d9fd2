import Toolchain32.Image
import Toolchain32.Link.Merge

/-!
# Linking

`link` checks that the artifacts fit together, lays their sections out, moves their words to the
final addresses and patches every relocation.
-/

namespace Toolchain32

/-- A relocation at its final address, and the value written there. -/
structure Patch where
  sectionName : String
  relocation : Relocation
  value : Word
  deriving DecidableEq, Repr

/-- The word that a patch writes. -/
def Patch.write (p : Patch) : Word × Word := (p.relocation.offset, Word.pack p.value)

structure Linked where
  regions : List Region
  symbols : List ObjectSymbol
  patches : List Patch
  image : Image

/-- The first symbol of the name, the reserved entry apart. -/
def Linked.symbol? (l : Linked) (name : String) : Option ObjectSymbol :=
  l.symbols.find? fun s => s.id != 0 && s.name == name

/-- The names bound global so far, each with its artifact, and one more. -/
def addGlobal (seen : List (String × String)) (global : String × String) :
    Except LinkError (List (String × String)) :=
  match seen.lookup global.1 with
  | some first => .error (.duplicateGlobal global.1 first global.2)
  | none => .ok (seen ++ [global])

/-- Every name that an artifact binds global, with that artifact; no name may be bound twice. -/
def globals (artifacts : List Artifact) : Except LinkError (List (String × String)) :=
  (artifacts.flatMap fun a =>
    (a.object.symbols.filter (·.binding == .global)).map fun s => (s.name, a.name)).foldlM
    addGlobal []

/-- A symbol that an artifact leaves open: an external one needs a global definition. -/
def checkSymbol (globals : List (String × String)) (artifact : String) (s : ObjectSymbol) :
    Except LinkError Unit :=
  match s.binding with
  | .external =>
    if (globals.lookup s.name).isSome then .ok () else .error (.unresolvedExternal s.name artifact)
  | .undefined => .error (.undefinedSymbol s.name)
  | .localOnly | .global => .ok ()

def checkArtifacts (artifacts : List Artifact) : Except LinkError Unit := do
  let globals ← globals artifacts
  artifacts.forM fun a => (a.object.symbols.drop 1).forM (checkSymbol globals a.name)

/-- What an artifact puts into one section, and where its share begins. -/
structure Contribution where
  artifact : Artifact
  index : Nat
  sectionName : String
  data : SectionData
  start : Word

namespace Contribution

/-- The words at their final addresses, a placeholder as zero. -/
def words (c : Contribution) : List (Word × Word) :=
  c.data.words.toList.map fun (offset, slot) =>
    (c.start + offset, match slot with
      | .word w => w
      | .placeholder => 0)

/-- What a relocation resolves to: the addend counted from the begin of the target, and the value.
A section-relative addend counts from the artifact's own share, which may begin further into the
region. -/
def resolve (m : Merged) (c : Contribution) (r : Relocation) : Except LinkError (Word × Word) :=
  match r.kind with
  | .absolute =>
    match m.symbols.find? fun s => s.binding == .global && s.name == r.symbol with
    | some target => .ok (r.addend, target.value + r.addend)
    | none => .error (.undefinedSymbol r.symbol)
  | .sectionRelative =>
    match m.regions.find? (·.name == r.symbol), m.start? c.index r.symbol with
    | some region, some start =>
      let addend := r.addend + (start - region.start)
      .ok (addend, region.start + addend)
    | _, _ => .error (.undefinedSymbol r.symbol)

/-- The patch of a relocation, whose word has to lie within the artifact's section. -/
def patch (m : Merged) (c : Contribution) (r : Relocation) : Except LinkError Patch := do
  let size := ((c.artifact.object.section? c.sectionName).map (·.size.toNat)).getD 0
  if size < r.offset.toNat + 4 then
    throw (.relocationOutOfRange c.sectionName r.offset c.artifact.name)
  let (addend, value) ← c.resolve m r
  return ⟨c.sectionName, { r with offset := c.start + r.offset, addend }, value⟩

def patches (m : Merged) (c : Contribution) : Except LinkError (List Patch) :=
  c.data.relocations.mapM (c.patch m)

/-- The words of a contribution, then its patches. -/
def writes (c : Contribution) (patches : List Patch) : List (Word × Word) :=
  c.words ++ patches.map Patch.write

end Contribution

/-- The contributions in the order of the artifacts and of their data; a section without a row in
the artifact's section table contributes nothing. -/
def contributions (m : Merged) (artifacts : List Artifact) : List Contribution :=
  artifacts.zipIdx.flatMap fun (artifact, index) =>
    artifact.object.data.filterMap fun (sectionName, data) =>
      (m.start? index sectionName).map fun start => ⟨artifact, index, sectionName, data, start⟩

def link (artifacts : List Artifact) (placements : List Placement) : Except LinkError Linked := do
  checkArtifacts artifacts
  let objects := artifacts.map (·.object)
  let regions ← layout (mergedSizes objects) placements
  let m := Merged.ofRegions objects regions
  let parts := contributions m artifacts
  let patches ← parts.mapM (·.patches m)
  let writes := (parts.zip patches).flatMap fun (c, p) => c.writes p
  return { regions, symbols := m.symbols, patches := patches.flatten, image := .ofList writes }

end Toolchain32
