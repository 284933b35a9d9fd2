import Mathlib.Algebra.GroupWithZero.Nat
import Mathlib.Algebra.Order.BigOperators.Group.List
import Mathlib.Algebra.Order.Group.Nat
import Toolchain32.Entries
import Toolchain32.Link.Merge

/-!
# Merged sections

The merged size of a section has room for its sizes in the objects, and the share of an object
begins behind the shares of the objects before it: `sizeBefore_le_mergedSizes` and
`getElem?_shareStarts`.
-/

namespace Toolchain32

def Object.sizeOf (o : Object) (name : String) : Nat :=
  ((o.section? name).map (·.size.toNat)).getD 0

def Object.sectionNames (o : Object) : List String := o.sections.map (·.name)

/-- Every section of the data stands there once and has a row in the section table, and its words
lie within its size. -/
structure Object.Bounded (o : Object) : Prop where
  data : (o.data.map (·.1)).Nodup
  listed : ∀ e ∈ o.data, e.1 ∈ o.sectionNames
  words : ∀ e ∈ o.data, ∀ (x : Word) (slot : Slot), e.2.words[x]? = some slot →
    x.toNat + 4 ≤ o.sizeOf e.1

structure Object.Sound (o : Object) : Prop extends o.Bounded where
  sections : o.sectionNames.Nodup
  relocations : ∀ e ∈ o.data, (e.2.relocations.map (·.offset)).Nodup

def sizeBefore (objects : List Object) (i : Nat) (name : String) : Nat :=
  ((objects.take i).map (·.sizeOf name)).sum

theorem lookup_addSize (name other : String) (size : Nat) (sizes : List (String × Nat)) :
    (addSize name size sizes).lookup other =
      if other = name then some ((sizes.lookup name).getD 0 + size) else sizes.lookup other := by
  induction sizes with
  | nil => simp [addSize, lookup_cons_ite]
  | cons e rest ih =>
    obtain ⟨key, total⟩ := e
    by_cases hkey : key = name
    · subst hkey
      by_cases hother : other = key <;> simp [addSize, lookup_cons_ite, hother]
    · by_cases hother : other = name
      · subst hother
        simp [addSize, lookup_cons_ite, hkey, Ne.symm hkey, ih]
      · simp [addSize, lookup_cons_ite, hkey, hother, ih]

theorem names_addSize (name : String) (size : Nat) (sizes : List (String × Nat)) :
    (addSize name size sizes).map (·.1) =
      if name ∈ sizes.map (·.1) then sizes.map (·.1) else sizes.map (·.1) ++ [name] := by
  induction sizes with
  | nil => rfl
  | cons e rest ih =>
    obtain ⟨key, total⟩ := e
    by_cases hkey : key = name
    · simp [addSize, hkey]
    · rw [addSize, if_neg hkey, List.map_cons, ih]
      by_cases hmem : name ∈ rest.map (·.1) <;> simp [hmem, Ne.symm hkey]

def sumSizes (sizes : List (String × Nat)) (sections : List Section) : List (String × Nat) :=
  sections.foldl (fun sizes s => addSize s.name s.size.toNat sizes) sizes

theorem getD_lookup_sumSizes (name : String) (sections : List Section)
    (sizes : List (String × Nat)) :
    ((sumSizes sizes sections).lookup name).getD 0 = (sizes.lookup name).getD 0 +
      ((sections.filter (·.name == name)).map (·.size.toNat)).sum := by
  induction sections generalizing sizes with
  | nil => rfl
  | cons s rest ih =>
    rw [sumSizes, List.foldl_cons, ← sumSizes, ih, lookup_addSize]
    by_cases h : name = s.name
    · simp [h, Nat.add_assoc]
    · simp [h, Ne.symm h]

theorem nodup_sumSizes (sizes : List (String × Nat)) (h : (sizes.map (·.1)).Nodup)
    (sections : List Section) : ((sumSizes sizes sections).map (·.1)).Nodup := by
  induction sections generalizing sizes with
  | nil => exact h
  | cons s rest ih =>
    refine ih _ ?_
    rw [names_addSize]
    split
    · exact h
    · rename_i hname
      refine List.nodup_append.mpr ⟨h, by simp, ?_⟩
      rintro a ha b hb rfl
      exact hname (List.mem_singleton.mp hb ▸ ha)

theorem mem_names_sumSizes (name : String) (sections : List Section)
    (sizes : List (String × Nat)) :
    name ∈ (sumSizes sizes sections).map (·.1) ↔
      name ∈ sizes.map (·.1) ∨ name ∈ sections.map (·.name) := by
  induction sections generalizing sizes with
  | nil => simp [sumSizes]
  | cons s rest ih =>
    rw [sumSizes, List.foldl_cons, ← sumSizes, ih, names_addSize, List.map_cons, List.mem_cons]
    by_cases hmem : s.name ∈ sizes.map (·.1)
    · rw [if_pos hmem]
      constructor
      · exact fun h => h.imp_right .inr
      · rintro (h | rfl | h)
        · exact .inl h
        · exact .inl hmem
        · exact .inr h
    · rw [if_neg hmem, List.mem_append, List.mem_singleton, or_assoc]

theorem mergedSizes_eq (objects : List Object) :
    mergedSizes objects = sumSizes [] (objects.flatMap (·.sections)) := rfl

theorem nodup_mergedSizes (objects : List Object) :
    ((mergedSizes objects).map (·.1)).Nodup := by
  rw [mergedSizes_eq]
  exact nodup_sumSizes [] List.nodup_nil _

theorem mem_names_mergedSizes {objects : List Object} {name : String} :
    name ∈ (mergedSizes objects).map (·.1) ↔ ∃ o ∈ objects, name ∈ o.sectionNames := by
  rw [mergedSizes_eq, mem_names_sumSizes]
  simp [Object.sectionNames, List.map_flatMap]

theorem Object.sizeOf_le_sum (o : Object) (name : String) :
    o.sizeOf name ≤ ((o.sections.filter (·.name == name)).map (·.size.toNat)).sum := by
  unfold sizeOf section?
  cases hfind : o.sections.find? (·.name == name) with
  | none => exact Nat.zero_le _
  | some s =>
    have hname : (s.name == name) = true := by simpa using List.find?_some hfind
    have hmem : s ∈ o.sections.filter (·.name == name) :=
      List.mem_filter.mpr ⟨List.mem_of_find?_eq_some hfind, hname⟩
    exact List.le_sum_of_mem (List.mem_map_of_mem (f := (·.size.toNat)) hmem)

/-- The merged size of a section has room for its sizes in the objects. -/
theorem sizeBefore_le_mergedSizes (objects : List Object) (name : String) :
    sizeBefore objects objects.length name ≤ ((mergedSizes objects).lookup name).getD 0 := by
  rw [mergedSizes_eq, getD_lookup_sumSizes, sizeBefore, List.take_length]
  simp only [List.lookup_nil, Option.getD_none, Nat.zero_add]
  induction objects with
  | nil => exact Nat.le_refl _
  | cons o rest ih =>
    rw [List.flatMap_cons, List.filter_append, List.map_append, List.sum_append, List.map_cons,
      List.sum_cons]
    exact Nat.add_le_add (o.sizeOf_le_sum name) ih

theorem sizeBefore_succ {objects : List Object} {i : Nat} {o : Object} (h : objects[i]? = some o)
    (name : String) :
    sizeBefore objects (i + 1) name = sizeBefore objects i name + o.sizeOf name := by
  rw [sizeBefore, sizeBefore, List.take_add_one, h]
  simp

theorem sizeBefore_mono (objects : List Object) {i j : Nat} (h : i ≤ j) (name : String) :
    sizeBefore objects i name ≤ sizeBefore objects j name := by
  have htake : objects.take j = objects.take i ++ (objects.take j).drop i := by
    have hsplit := (List.take_append_drop i (objects.take j)).symm
    rwa [List.take_take, Nat.min_eq_left h] at hsplit
  rw [sizeBefore, sizeBefore, htake, List.map_append, List.sum_append]
  exact Nat.le_add_right ..

theorem sizeBefore_length_le (objects : List Object) (i : Nat) (name : String) :
    sizeBefore objects i name ≤ sizeBefore objects objects.length name := by
  rcases Nat.le_total i objects.length with h | h
  · exact sizeBefore_mono objects h name
  · have heq : sizeBefore objects i name = sizeBefore objects objects.length name := by
      rw [sizeBefore, sizeBefore, List.take_of_length_le h, List.take_length]
    exact Nat.le_of_eq heq

/-- The share of an object begins behind the shares of the objects before it. -/
theorem getElem?_shareStarts (name : String) (start : Word) (objects : List Object) (i : Nat) :
    (shareStarts name start objects)[i]? = objects[i]?.map fun o =>
      (o.section? name).map fun _ => start + UInt32.ofNat (sizeBefore objects i name) := by
  induction objects generalizing start i with
  | nil => rfl
  | cons o rest ih =>
    cases i with
    | zero =>
      rw [shareStarts]
      cases hs : o.section? name <;> simp [sizeBefore, hs]
    | succ i =>
      have hbefore : sizeBefore (o :: rest) (i + 1) name =
          o.sizeOf name + sizeBefore rest i name := by
        simp [sizeBefore]
      rw [shareStarts, hbefore, List.getElem?_cons_succ]
      cases hs : o.section? name with
      | none => simp [ih, Object.sizeOf, hs]
      | some s => simp [ih, Object.sizeOf, hs, UInt32.add_assoc]

end Toolchain32
