import Toolchain32.Image
import Toolchain32.Proofs.WordMaps

/-!
# Writes to an image

Of the words written to an address the last one stays, and an image is what writing its own words
gives: `ofList_toList`.
-/

namespace Toolchain32.Image

theorem words_setAll (image : Image) (writes : List (Word × Word)) :
    (image.setAll writes).words = WordMap.insertAll image.words writes := by
  induction writes generalizing image with
  | nil => rfl
  | cons w rest ih => exact ih (image.set w.1 w.2)

theorem get?_setAll (image : Image) (writes : List (Word × Word)) (a : Word) :
    (image.setAll writes).get? a =
      ((writes.reverse.find? (·.1 == a)).map (·.2)).or (image.get? a) := by
  rw [get?, words_setAll, WordMap.getElem?_insertAll, get?]

theorem get?_ofList (writes : List (Word × Word)) (a : Word) :
    (ofList writes).get? a = (writes.reverse.find? (·.1 == a)).map (·.2) := by
  rw [ofList, get?_setAll, get?_empty, Option.or_none]

/-- Writes to other addresses, before and after, make no difference. -/
theorem get?_ofList_between {before writes after : List (Word × Word)} {a : Word}
    (hbefore : ∀ w ∈ before, w.1 ≠ a) (hafter : ∀ w ∈ after, w.1 ≠ a) :
    (ofList (before ++ (writes ++ after))).get? a = (ofList writes).get? a := by
  have hnone {ws : List (Word × Word)} (h : ∀ w ∈ ws, w.1 ≠ a) :
      ws.reverse.find? (·.1 == a) = none := by simpa using h
  simp only [get?_ofList, List.reverse_append, List.find?_append, hnone hbefore, hnone hafter,
    Option.or_none, Option.none_or]

/-- The last write to an address is what the image holds there. -/
theorem get?_ofList_of_last {before after : List (Word × Word)} {a w : Word}
    (h : ∀ v ∈ after, v.1 ≠ a) : (ofList (before ++ (a, w) :: after)).get? a = some w := by
  have hnone : after.reverse.find? (·.1 == a) = none := by simpa using h
  simp [get?_ofList, hnone]

theorem mem_of_get?_ofList {writes : List (Word × Word)} {a w : Word}
    (h : (ofList writes).get? a = some w) : (a, w) ∈ writes := by
  rw [get?_ofList] at h
  obtain ⟨v, hv, rfl⟩ := Option.map_eq_some_iff.mp h
  have ha : v.1 = a := by simpa using List.find?_some hv
  exact ha ▸ List.mem_reverse.mp (List.mem_of_find?_eq_some hv)

theorem ofList_toList (image : Image) : ofList image.toList = image := by
  have hwords : (ofList image.toList).words = image.words := by
    rw [ofList, words_setAll]
    exact WordMap.insertAll_toList image.words
  exact congrArg mk hwords

end Toolchain32.Image
