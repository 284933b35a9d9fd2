import Std.Data.ExtTreeMap
import Toolchain32.Word

/-!
# Maps filled from a list

Of the entries that are put into a map, the last one of each key stays. A map filled from its own
entries is the same map: `insertAll_toList`.
-/

namespace Toolchain32.WordMap

variable {β : Type}

def insertAll (m : Std.ExtTreeMap Word β) (entries : List (Word × β)) : Std.ExtTreeMap Word β :=
  entries.foldl (fun m e => m.insert e.1 e.2) m

theorem insertAll_concat (m : Std.ExtTreeMap Word β) (entries : List (Word × β)) (e : Word × β) :
    insertAll m (entries ++ [e]) = (insertAll m entries).insert e.1 e.2 := by
  rw [insertAll, List.foldl_append]
  rfl

theorem getElem?_insertAll (m : Std.ExtTreeMap Word β) (entries : List (Word × β)) (x : Word) :
    (insertAll m entries)[x]? = ((entries.reverse.find? (·.1 == x)).map (·.2)).or m[x]? := by
  induction entries generalizing m with
  | nil => rfl
  | cons e rest ih =>
    rw [insertAll, List.foldl_cons, ← insertAll, ih, Std.ExtTreeMap.getElem?_insert,
      List.reverse_cons, List.find?_append]
    by_cases he : e.1 = x
    · cases rest.reverse.find? (·.1 == x) <;> simp [he]
    · cases rest.reverse.find? (·.1 == x) <;> simp [he]

/-- An entry of a map is found from either end of its list. -/
theorem find?_reverse_toList (m : Std.ExtTreeMap Word β) (x : Word) :
    (m.toList.reverse.find? (·.1 == x)).map (·.2) = m[x]? := by
  cases hfind : m.toList.reverse.find? (·.1 == x) with
  | some e =>
    have hx : e.1 = x := by simpa using List.find?_some hfind
    have hmem : e ∈ m.toList := List.mem_reverse.mp (List.mem_of_find?_eq_some hfind)
    rw [← hx, Std.ExtTreeMap.mem_toList_iff_getElem?_eq_some.mp hmem]
    rfl
  | none =>
    cases hvalue : m[x]? with
    | none => rfl
    | some value =>
      have hmem := Std.ExtTreeMap.mem_toList_iff_getElem?_eq_some.mpr hvalue
      have hother := List.find?_eq_none.mp hfind _ (List.mem_reverse.mpr hmem)
      simp at hother

theorem insertAll_toList (m : Std.ExtTreeMap Word β) : insertAll ∅ m.toList = m := by
  refine Std.ExtTreeMap.ext_getElem? fun x => ?_
  rw [getElem?_insertAll, find?_reverse_toList]
  simp

end Toolchain32.WordMap
