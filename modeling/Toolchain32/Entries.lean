/-!
# Entries

A list of keys with values serves as a map that keeps its order. `putEntry` is its update: a new key
goes to the end, and a key that is there keeps its place.
-/

namespace Toolchain32

variable {α β : Type} [BEq α]

def putEntry (key : α) (value : β) : List (α × β) → List (α × β)
  | [] => [(key, value)]
  | e :: rest => if e.1 == key then (key, value) :: rest else e :: putEntry key value rest

/-- The map of a list of entries, in which a later entry of a key replaces the earlier one. -/
def ofEntries (entries : List (α × β)) : List (α × β) :=
  entries.foldl (fun before e => putEntry e.1 e.2 before) []

theorem lookup_putEntry [LawfulBEq α] (key k : α) (value : β) (entries : List (α × β)) :
    (putEntry key value entries).lookup k =
      if k == key then some value else entries.lookup k := by
  induction entries with
  | nil => cases h : k == key <;> simp [putEntry, List.lookup_cons, h]
  | cons e rest ih =>
    obtain ⟨a, b⟩ := e
    by_cases ha : a = key
    · cases h : k == key <;> simp [putEntry, List.lookup_cons, ha, h]
    · by_cases hk : k = a
      · simp [putEntry, ha, hk]
      · have hka : (k == a) = false := by simp [hk]
        simp [putEntry, List.lookup_cons, ha, hka, ih]

section Lookup

variable {κ : Type} [DecidableEq κ]

theorem lookup_cons_ite (key k : κ) (value : β) (entries : List (κ × β)) :
    ((k, value) :: entries).lookup key = if key = k then some value else entries.lookup key := by
  by_cases h : key = k
  · simp [h]
  · simp [List.lookup_cons, beq_eq_false_iff_ne.2 h, h]

/-- A lookup finds every entry whose key is the only one of its name. -/
theorem lookup_eq_of_mem {entries : List (κ × β)} (h : (entries.map (·.1)).Nodup) {e : κ × β}
    (he : e ∈ entries) : entries.lookup e.1 = some e.2 := by
  induction entries with
  | nil => cases he
  | cons first rest ih =>
    obtain ⟨k, value⟩ := first
    rw [List.map_cons, List.nodup_cons] at h
    rw [lookup_cons_ite]
    rcases List.mem_cons.mp he with rfl | he
    · exact if_pos rfl
    · have hne : e.1 ≠ k := fun heq => h.1 (heq ▸ List.mem_map_of_mem (f := (·.1)) he)
      rw [if_neg hne]
      exact ih h.2 he

theorem lookup_eq_some_iff_mem {entries : List (κ × β)} (h : (entries.map (·.1)).Nodup) {key : κ}
    {value : β} : entries.lookup key = some value ↔ (key, value) ∈ entries := by
  constructor
  · intro hlookup
    obtain ⟨before, after, rfl, -⟩ := List.lookup_eq_some_iff.mp hlookup
    exact List.mem_append_right before List.mem_cons_self
  · exact fun hmem => lookup_eq_of_mem h hmem

theorem lookup_isSome_iff_mem (key : κ) (entries : List (κ × β)) :
    (entries.lookup key).isSome = true ↔ key ∈ entries.map (·.1) := by
  induction entries with
  | nil => simp
  | cons first rest ih =>
    obtain ⟨k, value⟩ := first
    by_cases h : key = k <;> simp [lookup_cons_ite, h, ih]

end Lookup

end Toolchain32
