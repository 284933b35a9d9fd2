import Toolchain32.Proofs.ImageWrites
import Toolchain32.Proofs.TextRows

/-!
# The text of an image read back

The text of an image is made of rows of one or two words. Every line is read as the words of its
row, so that reading the lines in order repeats the writes of the image: `parse_print`.
-/

namespace Toolchain32.Image

open Text

variable {a b w v : Word}

def digits (w : Word) : List Char := (upperHex 8 w.toNat).toList

theorem isNumeral_digits (w : Word) : IsNumeral 16 (digits w) :=
  isNumeral_of_natural? (natural?_upperHex 8 w.toNat)

theorem isWord_digits (w : Word) : IsWord (digits w) := (isNumeral_digits w).isWord

theorem length_digits (w : Word) : (digits w).length = 8 := length_upperHex w

theorem exactWord?_digits (w : Word) : exactWord? (digits w) = some w := exactWord?_upperHex w

theorem readWords_one (a w : Word) : readWords a (digits w) = .ok [(a, w)] := by
  have hascii : (digits w).all (·.toNat < 128) = true := by
    rw [List.all_eq_true]
    intro c hc
    have hrange := toNat_of_digit? ((isNumeral_digits w).digits c hc)
    rw [decide_eq_true_eq]
    omega
  have htake : (digits w).take 8 = digits w := List.take_of_length_le (by rw [length_digits])
  rw [readWords, htake, exactWord?_digits, hascii, length_digits]
  rfl

theorem readWords_two (w v : Word) (ha : a.toNat + 4 < 0x100000000) :
    readWords a (digits w ++ digits v) = .ok [(a, w), (a + 4, v)] := by
  have hascii : (digits w ++ digits v).all (·.toNat < 128) = true := by
    rw [List.all_eq_true]
    intro c hc
    have hdigit : (digit? 16 c).isSome = true := by
      rcases List.mem_append.mp hc with hc | hc
      · exact (isNumeral_digits w).digits c hc
      · exact (isNumeral_digits v).digits c hc
    have hrange := toNat_of_digit? hdigit
    rw [decide_eq_true_eq]
    omega
  have htake : (digits w ++ digits v).take 8 = digits w := List.take_left' (length_digits w)
  have hdrop : (digits w ++ digits v).drop 8 = digits v := List.drop_left' (length_digits w)
  have hlength : (digits w ++ digits v).length = 16 := by
    rw [List.length_append, length_digits, length_digits]
  rw [readWords, htake, hdrop, exactWord?_digits, exactWord?_digits, hascii, hlength]
  simp [ha, pure, Except.pure]

/-- A line is an address, a colon and digits, which may stand apart from each other. -/
theorem readLine_colon {last : List Char} (hlast : IsWord last) (middle : List Char) :
    readLine (digits a ++ (':' :: middle ++ last)) =
      readWords a ((middle ++ last).filter fun c => !isBlank c) := by
  have hcolon : ∀ c ∈ digits a, (c == ':') = false := by
    intro c hc
    rw [beq_eq_false_iff_ne]
    rintro rfl
    exact (toNat_of_digit? ((isNumeral_digits a).digits ':' hc)).2.2 rfl
  have htrim := trim_between (isWord_digits a) hlast (':' :: middle)
  have hcut : cutAt? (· == ':') (digits a ++ (':' :: middle ++ last)) =
      some (digits a, middle ++ last) := cutAt?_append_cons hcolon (by rfl) _
  have hne : (digits a ++ (':' :: middle ++ last)).isEmpty = false := by simp
  unfold readLine
  simp only [htrim, hcut, hne, (isWord_digits a).trim, exactWord?_digits]
  rfl

theorem filter_digits (w : Word) : (digits w).filter (fun c => !isBlank c) = digits w :=
  List.filter_eq_self.mpr fun c hc => by rw [(isWord_digits w).solid c hc]; rfl

theorem filter_gap : [' ', ' '].filter (fun c => !isBlank c) = [] := by decide

theorem readLine_one (a w : Word) :
    readLine (upperHex 8 a.toNat ++ ":  " ++ upperHex 8 w.toNat).toList = .ok [(a, w)] := by
  have hfilter : ([' ', ' '] ++ digits w).filter (fun c => !isBlank c) = digits w := by
    rw [List.filter_append, filter_gap, filter_digits, List.nil_append]
  have hline := readLine_colon (a := a) (isWord_digits w) [' ', ' ']
  rw [hfilter, readWords_one] at hline
  rw [← hline]
  simp [digits]

theorem readLine_two (w v : Word) (ha : a.toNat + 4 < 0x100000000) :
    readLine (upperHex 8 a.toNat ++ ":  " ++ upperHex 8 w.toNat ++ "  " ++
      upperHex 8 v.toNat).toList = .ok [(a, w), (a + 4, v)] := by
  have hfilter : ([' ', ' '] ++ digits w ++ [' ', ' '] ++ digits v).filter
      (fun c => !isBlank c) = digits w ++ digits v := by
    simp only [List.filter_append, filter_gap, filter_digits, List.nil_append, List.append_nil]
  have hline := readLine_colon (a := a) (isWord_digits v) ([' ', ' '] ++ digits w ++ [' ', ' '])
  rw [hfilter, readWords_two w v ha] at hline
  rw [← hline]
  simp [digits]

inductive Row
  | one (address word : Word)
  | two (address word next : Word) (h : address.toNat + 4 < 0x100000000)

namespace Row

/-- The words of a row with their addresses; the address of the second one is not spelled. -/
def words : Row → List (Word × Word)
  | one a w => [(a, w)]
  | two a w v _ => [(a, w), (a + 4, v)]

def text : Row → String
  | one a w => upperHex 8 a.toNat ++ ":  " ++ upperHex 8 w.toNat
  | two a w v _ => upperHex 8 a.toNat ++ ":  " ++ upperHex 8 w.toNat ++ "  " ++ upperHex 8 v.toNat

theorem readLine_text (r : Row) : readLine r.text.toList = .ok r.words := by
  cases r with
  | one a w => exact readLine_one a w
  | two a w v h => exact readLine_two w v h

theorem isLine_text (r : Row) : IsLine r.text.toList := by
  have hdigits (w : Word) : IsLine (upperHex 8 w.toNat).toList := (isWord_digits w).isLine
  cases r with
  | one a w =>
    simp only [text, isLine_append, and_assoc]
    exact ⟨hdigits a, by decide, hdigits w⟩
  | two a w v h =>
    simp only [text, isLine_append, and_assoc]
    exact ⟨hdigits a, by decide, hdigits w, by decide, hdigits v⟩

end Row

/-- Words are printed in rows that have each of them once. -/
theorem exists_rows (ws : List (Word × Word)) :
    ∃ rows : List Row, printLines ws = rows.map Row.text ∧ rows.flatMap Row.words = ws := by
  induction ws using printLines.induct with
  | case1 => exact ⟨[], rfl, rfl⟩
  | case2 a w => exact ⟨[.one a w], rfl, rfl⟩
  | case3 a w b v rest hnext ih =>
    obtain ⟨rows, hlines, hwords⟩ := ih
    have ha : a.toNat + 4 < 0x100000000 := hnext ▸ b.toNat_lt
    have hb : b = a + 4 := by
      apply UInt32.toNat_inj.mp
      rw [UInt32.toNat_add, ← hnext]
      exact (Nat.mod_eq_of_lt ha).symm
    refine ⟨.two a w v ha :: rows, ?_, ?_⟩
    · rw [printLines, if_pos hnext, hlines]
      rfl
    · rw [List.flatMap_cons, hwords, hb]
      rfl
  | case4 a w b v rest hnext ih =>
    obtain ⟨rows, hlines, hwords⟩ := ih
    refine ⟨.one a w :: rows, ?_, ?_⟩
    · rw [printLines, if_neg hnext, hlines]
      rfl
    · rw [List.flatMap_cons, hwords]
      rfl

theorem readLines_rows (rows : List Row) (image : Image) (n : Nat) :
    readLines image n (rows.map (·.text.toList)) =
      .ok (image.setAll (rows.flatMap Row.words)) := by
  induction rows generalizing image n with
  | nil => rfl
  | cons r rows ih =>
    rw [List.map_cons, readLines, r.readLine_text, List.flatMap_cons, setAll, List.foldl_append]
    exact ih _ _

/-- Rows that spell an image: each of its words once, in ascending address order. -/
structure IsSpelledBy (image : Image) (rows : List Row) : Prop where
  ascending : (rows.flatMap Row.words).Pairwise fun e e' => e.1 < e'.1
  words : ∀ a w, (a, w) ∈ rows.flatMap Row.words ↔ image.get? a = some w

theorem pairwise_toList (image : Image) : image.toList.Pairwise fun e e' => e.1 < e'.1 :=
  Std.ExtTreeMap.ordered_keys_toList.imp Std.compare_eq_lt.mp

/-- The text of an image is made of rows, one on a line. -/
theorem exists_print_eq (image : Image) : ∃ rows : List Row,
    image.print = String.join (rows.map fun r => r.text ++ "\n") ∧
      rows.flatMap Row.words = image.toList := by
  obtain ⟨rows, hlines, hwords⟩ := exists_rows image.toList
  refine ⟨rows, ?_, hwords⟩
  rw [print, hlines, List.map_map]
  rfl

theorem lines_rows (rows : List Row) :
    lines (String.join (rows.map fun r => r.text ++ "\n")).toList =
      rows.map (·.text.toList) := by
  have htexts : ∀ l ∈ rows.map Row.text, IsLine l.toList := by
    intro l hl
    obtain ⟨r, -, rfl⟩ := List.mem_map.mp hl
    exact r.isLine_text
  have hlines := lines_join htexts
  rwa [List.map_map, List.map_map] at hlines

/-- Every image is read back from its text. -/
theorem parse_print (image : Image) : parse image.print = .ok image := by
  obtain ⟨rows, hprint, hwords⟩ := exists_print_eq image
  rw [parse, hprint, lines_rows, readLines_rows, hwords]
  exact congrArg Except.ok (ofList_toList image)

/-- The text of an image has its words once, in ascending address order, and the image is read back
from it. Two words share a line only if the second one's address is the next one, which is not
beyond the last address. -/
theorem parse_print_rows (image : Image) : parse image.print = .ok image ∧
    ∃ rows : List Row, image.IsSpelledBy rows ∧
      image.print = String.join (rows.map fun r => r.text ++ "\n") ∧
      (lines image.print.toList).map readLine = rows.map fun r => .ok r.words := by
  obtain ⟨rows, hprint, hwords⟩ := exists_print_eq image
  refine ⟨parse_print image, rows, ⟨?_, fun a w => ?_⟩, hprint, ?_⟩
  · rw [hwords]
    exact pairwise_toList image
  · rw [hwords]
    exact mem_toList_iff
  · rw [hprint, lines_rows, List.map_map]
    exact List.map_congr_left fun r _ => r.readLine_text

end Toolchain32.Image
