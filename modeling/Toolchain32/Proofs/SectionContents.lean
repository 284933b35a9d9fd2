import Mathlib.Algebra.BigOperators.Ring.List
import Mathlib.Algebra.Ring.Nat
import Toolchain32.Entries
import Toolchain32.Proofs.EmittedRows

/-!
# The contents of a section

Rows that tile a section put their words behind each other (`Tiles.emittedInto_eq`), one at each of
the offsets 0, 4, 8 and so on (`keys_emittedInto`). The data of the section holds those words
(`words_sectionData`), and lists them in the same order (`toList_sectionData`).
-/

namespace Toolchain32

def wordOffsets (start count : Nat) : List Word :=
  (List.range count).map fun k => UInt32.ofNat (start + 4 * k)

theorem ascending_wordOffsets {start count : Nat} (h : start + 4 * count ≤ 0x100000000) :
    (wordOffsets start count).Pairwise (· < ·) := by
  refine List.pairwise_map.mpr (List.Pairwise.imp_of_mem ?_ List.pairwise_lt_range)
  intro j k hj hk hlt
  rw [List.mem_range] at hj hk
  rw [UInt32.lt_iff_toNat_lt, UInt32.toNat_ofNat', UInt32.toNat_ofNat']
  omega

theorem mem_wordOffsets {start count : Nat} {o : Word} :
    o ∈ wordOffsets start count ↔ ∃ k < count, o = UInt32.ofNat (start + 4 * k) := by
  simp [wordOffsets, eq_comm]

/-- What is made of words and their offsets, each four bytes behind the one before it. -/
theorem map_zipIdx_cons {α : Type} (f : Slot → Nat → α) (offset : Nat) (slot : Slot)
    (words : List Slot) : ((slot :: words).zipIdx.map fun (s, i) => f s (offset + 4 * i)) =
      f slot offset :: words.zipIdx.map fun (s, i) => f s (offset + 4 + 4 * i) := by
  simp only [List.zipIdx_cons, List.map_cons, Nat.mul_zero, Nat.add_zero, Nat.zero_add]
  rw [List.zipIdx_succ, List.map_map]
  congr 1
  refine List.map_congr_left fun e _ => ?_
  simp only [Function.comp_apply, Nat.mul_add, Nat.mul_one, Nat.add_assoc, Nat.add_comm 4]

def entriesFrom (offset : Nat) (words : List Slot) : List (Word × Slot) :=
  words.zipIdx.map fun (slot, i) => (UInt32.ofNat (offset + 4 * i), slot)

theorem entriesFrom_cons (offset : Nat) (slot : Slot) (words : List Slot) :
    entriesFrom offset (slot :: words) =
      (UInt32.ofNat offset, slot) :: entriesFrom (offset + 4) words :=
  map_zipIdx_cons (fun slot o => (UInt32.ofNat o, slot)) offset slot words

theorem entriesFrom_append (offset : Nat) (words more : List Slot) :
    entriesFrom offset (words ++ more) =
      entriesFrom offset words ++ entriesFrom (offset + 4 * words.length) more := by
  induction words generalizing offset with
  | nil => rfl
  | cons slot words ih =>
    rw [List.cons_append, entriesFrom_cons, entriesFrom_cons, ih, List.length_cons,
      List.cons_append, Nat.mul_succ, Nat.add_assoc, Nat.add_comm 4]

theorem keys_entriesFrom (offset : Nat) (words : List Slot) :
    (entriesFrom offset words).map (·.1) = wordOffsets offset words.length := by
  simp only [entriesFrom, wordOffsets, List.map_map]
  rw [List.range_eq_range', ← List.zipIdx_map_snd, List.map_map]
  rfl

def emittedInto (rows : List Row) (name : String) : List (Word × Slot) :=
  (rows.filter (·.sectionName == name)).flatMap Row.entries

def wordsInto (rows : List Row) (name : String) : List Slot :=
  (rows.filter (·.sectionName == name)).flatMap (·.words)

theorem bytesInto_eq (rows : List Row) (name : String) :
    bytesInto rows name = 4 * (wordsInto rows name).length := by
  rw [bytesInto, wordsInto, List.length_flatMap]
  exact List.sum_map_mul_left (rows.filter (·.sectionName == name)) (·.words.length) 4

/-- The words of rows that tile a section stand behind each other. -/
theorem Tiles.emittedInto_eq {name : String} {start stop : Nat} {rows : List Row}
    (h : Tiles name start rows stop) :
    emittedInto rows name = entriesFrom start (wordsInto rows name) := by
  induction rows generalizing start with
  | nil => rfl
  | cons r rows ih =>
    by_cases hr : r.sectionName = name
    · simp only [Tiles, hr, if_true] at h
      have hemitted : emittedInto (r :: rows) name = r.entries ++ emittedInto rows name := by
        simp [emittedInto, hr]
      have hwords : wordsInto (r :: rows) name = r.words ++ wordsInto rows name := by
        simp [wordsInto, hr]
      rw [hemitted, hwords, ih h.2, entriesFrom_append, ← h.1]
      rfl
    · simp only [Tiles, hr, if_false] at h
      have hemitted : emittedInto (r :: rows) name = emittedInto rows name := by
        simp [emittedInto, hr]
      have hwords : wordsInto (r :: rows) name = wordsInto rows name := by
        simp [wordsInto, hr]
      rw [hemitted, hwords, ih h]

/-- The words of a section stand behind each other. -/
theorem keys_emittedInto {name : String} {start stop : Nat} {rows : List Row}
    (h : Tiles name start rows stop) :
    ∃ count, stop = start + 4 * count ∧
      (emittedInto rows name).map (·.1) = wordOffsets start count :=
  ⟨(wordsInto rows name).length, by rw [h.stop_eq, bytesInto_eq],
    by rw [h.emittedInto_eq, keys_entriesFrom]⟩

theorem getElem?_foldl_insert (entries : List (Word × Slot)) (m : Std.ExtTreeMap Word Slot)
    (h : (entries.map (·.1)).Nodup) (o : Word) :
    (entries.foldl (fun m e => m.insert e.1 e.2) m)[o]? = (entries.lookup o).or m[o]? := by
  induction entries generalizing m with
  | nil => rfl
  | cons e rest ih =>
    obtain ⟨key, slot⟩ := e
    rw [List.map_cons, List.nodup_cons] at h
    rw [List.foldl_cons, ih _ h.2, lookup_cons_ite, Std.ExtTreeMap.getElem?_insert]
    by_cases ho : o = key
    · subst ho
      have hnone : rest.lookup o = none := by
        rw [← Option.not_isSome_iff_eq_none, lookup_isSome_iff_mem]
        exact h.1
      simp [hnone]
    · simp [ho, Ne.symm ho]

/-- The data of a section holds the words that were put into it. -/
theorem words_sectionData {rows : List Row} {name : String}
    (h : ((emittedInto rows name).map (·.1)).Nodup) (o : Word) (slot : Slot) :
    (Assembled.sectionData rows name).words[o]? = some slot ↔
      (o, slot) ∈ emittedInto rows name := by
  rw [← lookup_eq_some_iff_mem h]
  have hwords : (Assembled.sectionData rows name).words = (emittedInto rows name).foldl
      (fun (m : Std.ExtTreeMap Word Slot) e => m.insert e.1 e.2) ∅ := rfl
  rw [hwords, getElem?_foldl_insert _ _ h]
  simp

/-- A table that is filled with ascending offsets lists them in that order. -/
theorem toList_sectionData {rows : List Row} {name : String}
    (h : ((emittedInto rows name).map (·.1)).Pairwise (· < ·)) :
    (Assembled.sectionData rows name).words.toList = emittedInto rows name := by
  have hemitted : (emittedInto rows name).Pairwise fun e e' => e.1 < e'.1 := List.pairwise_map.mp h
  have htable : (Assembled.sectionData rows name).words.toList.Pairwise fun e e' => e.1 < e'.1 :=
    Std.ExtTreeMap.ordered_keys_toList.imp Std.compare_eq_lt.mp
  have hdistinct {e e' : Word × Slot} (hlt : e.1 < e'.1) : e ≠ e' := fun heq =>
    UInt32.ne_of_lt hlt (congrArg (·.1) heq)
  refine List.Perm.eq_of_pairwise (fun e e' _ _ hlt hgt => ?_) htable hemitted
    ((List.perm_ext_iff_of_nodup (htable.imp hdistinct) (hemitted.imp hdistinct)).mpr fun e => ?_)
  · exact absurd (UInt32.lt_trans hlt hgt) (UInt32.lt_irrefl _)
  · rw [Std.ExtTreeMap.mem_toList_iff_getElem?_eq_some]
    exact words_sectionData (h.imp UInt32.ne_of_lt) e.1 e.2

end Toolchain32
