import Std.Data.ExtTreeMap
import Toolchain32.Assembly.Error
import Toolchain32.Object

/-!
# Symbol tables

The symbols of one source, after the reserved entry. A symbol's id is its place in the table, as a
number without bound; up to 2^32 entries it is the same as a place that is counted in a word. A name
may be entered more than once: `get?` and `bind` reach the entry made last, which the table keeps
under its name.
-/

namespace Toolchain32

structure SymbolTable where
  /-- The entries after the reserved one, the last one first. -/
  lastFirst : List ObjectSymbol
  /-- The id of the next entry. -/
  nextId : Nat
  /-- The entry of each name that was made last. -/
  byName : Std.ExtTreeMap String ObjectSymbol
  nextId_eq : nextId = lastFirst.length + 1
  byName_eq : ∀ name, byName[name]? = lastFirst.find? (·.name == name)

namespace SymbolTable

def empty : SymbolTable where
  lastFirst := []
  nextId := 1
  byName := ∅
  nextId_eq := rfl
  byName_eq _ := by simp

/-- The entries after the reserved one. -/
def entries (t : SymbolTable) : List ObjectSymbol := t.lastFirst.reverse

def toList (t : SymbolTable) : List ObjectSymbol := ObjectSymbol.null :: t.entries

/-- The entry of the name that was made last. -/
def get? (t : SymbolTable) (name : String) : Option ObjectSymbol := t.byName[name]?

def byId? (t : SymbolTable) (id : Nat) : Option ObjectSymbol := t.toList[id]?

def contains (t : SymbolTable) (name : String) : Bool := (t.get? name).isSome

/-- The entry that a push adds; a section's symbol owns itself. -/
def pushed (t : SymbolTable) (name : String) (value : Word) (kind : SymbolKind)
    (owner : Option Nat) (binding : Binding) : ObjectSymbol where
  id := t.nextId
  name := name
  value := value
  kind := kind
  owner := match kind with
    | .ofSection => t.nextId
    | .plain => owner.getD 0
  binding := binding

/-- One more entry. -/
def push (t : SymbolTable) (name : String) (value : Word) (kind : SymbolKind) (owner : Option Nat)
    (binding : Binding) : SymbolTable :=
  let s := t.pushed name value kind owner binding
  { lastFirst := s :: t.lastFirst
    nextId := t.nextId + 1
    byName := t.byName.insert name s
    nextId_eq := congrArg (· + 1) t.nextId_eq
    byName_eq := fun other => by
      have hname : s.name = name := rfl
      by_cases h : name = other <;>
        simp [Std.ExtTreeMap.getElem?_insert, t.byName_eq, hname, h] }

/-- The entry of the given id gets another binding. -/
def rebound (id : Nat) (binding : Binding) (e : ObjectSymbol) : ObjectSymbol :=
  if e.id = id then { e with binding } else e

theorem name_rebound (id : Nat) (binding : Binding) (e : ObjectSymbol) :
    (rebound id binding e).name = e.name := by
  unfold rebound
  split <;> rfl

theorem find?_map_rebound (id : Nat) (binding : Binding) (name : String)
    (entries : List ObjectSymbol) :
    (entries.map (rebound id binding)).find? (·.name == name) =
      (entries.find? (·.name == name)).map (rebound id binding) := by
  have hname : (fun e : ObjectSymbol => e.name == name) ∘ rebound id binding =
      fun e => e.name == name :=
    funext fun e => congrArg (· == name) (name_rebound id binding e)
  rw [List.find?_map, hname]

/-- The entry of the name that was made last gets another binding. -/
def bind (t : SymbolTable) (name : String) (binding : Binding) : SymbolTable :=
  match t.get? name with
  | none => t
  | some found =>
    { lastFirst := t.lastFirst.map (rebound found.id binding)
      nextId := t.nextId
      byName := t.byName.map fun _ => rebound found.id binding
      nextId_eq := by rw [List.length_map, t.nextId_eq]
      byName_eq := fun other => by
        rw [Std.ExtTreeMap.getElem?_map, t.byName_eq, find?_map_rebound] }

/-- A name declared global: a label becomes global, and a name that is not defined stays open. -/
def declareGlobal (t : SymbolTable) (name : String) : Except AssemblyError SymbolTable :=
  match t.get? name with
  | none => .ok (t.push name 0 .plain none .undefined)
  | some s =>
    if s.kind = .ofSection then .error (.sectionBinding name)
    else if s.binding = .localOnly then .ok (t.bind name .global)
    else .ok t

/-- A name declared external, which the source must not define. -/
def declareExternal (t : SymbolTable) (name : String) : Except AssemblyError SymbolTable :=
  match t.get? name with
  | none => .ok (t.push name 0 .plain none .external)
  | some s =>
    if s.kind = .ofSection then .error (.sectionBinding name)
    else match s.binding with
      | .localOnly | .global => .error (.externalDefined name)
      | .undefined | .external => .ok (t.bind name .external)

@[simp] theorem length_toList (t : SymbolTable) : t.toList.length = t.nextId := by
  simp [toList, entries, t.nextId_eq]

theorem get?_eq_find? (t : SymbolTable) (name : String) :
    t.get? name = t.entries.reverse.find? (·.name == name) := by
  rw [get?, t.byName_eq, entries, List.reverse_reverse]

theorem entries_push (t : SymbolTable) (name : String) (value : Word) (kind : SymbolKind)
    (owner : Option Nat) (binding : Binding) :
    (t.push name value kind owner binding).entries =
      t.entries ++ [t.pushed name value kind owner binding] := List.reverse_cons

theorem toList_push (t : SymbolTable) (name : String) (value : Word) (kind : SymbolKind)
    (owner : Option Nat) (binding : Binding) :
    (t.push name value kind owner binding).toList =
      t.toList ++ [t.pushed name value kind owner binding] := congrArg _ (entries_push ..)

theorem entries_bind {t : SymbolTable} {name : String} {found : ObjectSymbol}
    (h : t.get? name = some found) (binding : Binding) :
    (t.bind name binding).entries = t.entries.map (rebound found.id binding) := by
  unfold bind
  split
  · rename_i hnone
    rw [h] at hnone
    cases hnone
  · rename_i e he
    rw [h] at he
    cases he
    exact List.map_reverse.symm

end SymbolTable

end Toolchain32
