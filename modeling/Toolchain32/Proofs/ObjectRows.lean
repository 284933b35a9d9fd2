import Toolchain32.Object.Parser
import Toolchain32.Object.Printer
import Toolchain32.Proofs.TextRows

/-!
# Rows of an object's tables read back

Each row that is printed for a section, a symbol, a relocation or a word has the words that its
columns hold, and is read as what it was printed for. An id has a column of its own only while it
has at most five digits.
-/

namespace Toolchain32.Object

open Text

theorem isWord_toString (n : Nat) : IsWord (toString n).toList :=
  (isNumeral_of_natural? (natural?_toString n)).isWord

theorem isWord_hex (width n : Nat) : IsWord (hex width n).toList :=
  (isNumeral_of_natural? (natural?_hex width n)).isWord

theorem isWord_kind (k : SymbolKind) : IsWord k.name.toList := by cases k <;> decide

theorem isWord_binding (b : Binding) : IsWord b.name.toList := by cases b <;> decide

theorem isWord_relocationKind (k : RelocationKind) : IsWord k.name.toList := by
  cases k <;> decide

theorem isWord_ownerText (n : Nat) : IsWord (ownerText n).toList := by
  unfold ownerText
  split
  · decide
  · exact isWord_toString n

theorem length_toString_lt {n k : Nat} (hk : 0 < k) (h : n < 10 ^ k) :
    (toString n).length < k + 1 :=
  Nat.lt_succ_of_le ((Nat.length_repr_le_iff hk).mpr h)

theorem length_ownerText {n : Nat} (h : n < 0x100000000) : (ownerText n).length < 13 := by
  unfold ownerText
  split
  · decide
  · have hlength := length_toString_lt (n := n) (k := 10) (by decide) (by omega)
    omega

theorem words_gap (width : Nat) {s : String} (hs : IsWord s.toList) (rest : List Char) :
    words ((padRight width s).toList ++ (" ".toList ++ rest)) = s.toList :: words rest := by
  have hgap : IsGap (List.replicate (width - s.length) ' ' ++ [' ']) := by
    refine ⟨by simp, fun c hc => ?_⟩
    rcases List.mem_append.mp hc with hc | hc
    · rw [List.eq_of_mem_replicate hc]
      rfl
    · rw [List.mem_singleton.mp hc]
      rfl
  rw [toList_padRight, List.append_assoc, ← List.append_assoc (List.replicate _ _)]
  exact words_cell hs hgap rest

theorem isGap_one : IsGap [' '] := isGap_replicate (n := 1) (by decide)

theorem isGap_four : IsGap "    ".toList := isGap_replicate (n := 4) (by decide)

theorem isGap_five : IsGap "     ".toList := isGap_replicate (n := 5) (by decide)

variable {s : Section} {e : ObjectSymbol} {r : Relocation} {w : Word × Slot}

theorem words_sectionLine (hid : s.id < 100000) (hname : IsWord s.name.toList) :
    words (sectionLine s).toList =
      [(toString s.id).toList, (hex 8 s.size.toNat).toList, s.name.toList] := by
  have hlength := length_toString_lt (k := 5) (by decide) hid
  simp only [sectionLine, String.toList_append, List.append_assoc]
  rw [words_padRight (isWord_toString _) hlength, words_cell (isWord_hex ..) isGap_four,
    words_word hname]

theorem isLine_sectionLine (hname : IsWord s.name.toList) : IsLine (sectionLine s).toList := by
  simp only [sectionLine, isLine_append, and_assoc]
  exact ⟨isLine_padRight (isWord_toString _).isLine, (isWord_hex ..).isLine, by decide,
    hname.isLine⟩

theorem readSection_sectionLine (hid : s.id < 100000) (hname : IsWord s.name.toList) :
    readSection (words (sectionLine s).toList) = .ok s := by
  have hsmall : s.id < 0x100000000 := by omega
  have hread : (UInt32.ofNat s.id).toNat = s.id := UInt32.toNat_ofNat_of_lt' hsmall
  rw [words_sectionLine hid hname, readSection, word?_toString hsmall, word?_hex]
  simp only [need, String.ofList_toList]
  exact congrArg (fun id => Except.ok { s with id }) hread

theorem named_kind (k : SymbolKind) :
    named SymbolKind.name SymbolKind.all k.name.toList = some k := by
  cases k <;> decide

theorem named_binding (b : Binding) : named Binding.name Binding.all b.name.toList = some b := by
  cases b <;> decide

theorem readOwner_ownerText {n : Nat} (h : n < 0x100000000) :
    readOwner (ownerText n).toList = .ok n := by
  unfold ownerText readOwner
  rw [String.ofList_toList]
  split
  · rename_i hn
    subst hn
    rfl
  · have hund : toString n ≠ "UND" := by
      intro heq
      have hnone : natural? 10 "UND".toList = none := by decide
      rw [← heq, natural?_toString] at hnone
      cases hnone
    rw [if_neg hund, word?_toString h]
    exact congrArg Except.ok (UInt32.toNat_ofNat_of_lt' h)

theorem words_symbolLine (hid : e.id < 100000) (howner : e.owner < 0x100000000) :
    words (symbolLine e).toList =
      [(toString e.id).toList, (hex 8 e.value.toNat).toList, e.kind.name.toList,
        e.binding.name.toList, (ownerText e.owner).toList] ++ words e.name.toList := by
  have hlength := length_toString_lt (k := 5) (by decide) hid
  have hkind : e.kind.name.length < 10 := by cases e.kind <;> decide
  have hbinding : e.binding.name.length < 13 := by cases e.binding <;> decide
  simp only [symbolLine, String.toList_append, List.append_assoc]
  rw [words_padRight (isWord_toString _) hlength, words_cell (isWord_hex ..) isGap_four,
    words_padRight (isWord_kind _) hkind, words_padRight (isWord_binding _) hbinding,
    words_padRight (isWord_ownerText _) (length_ownerText howner)]
  rfl

theorem isLine_symbolLine (hname : IsSolid e.name.toList) :
    IsLine (symbolLine e).toList := by
  simp only [symbolLine, isLine_append, and_assoc]
  exact ⟨isLine_padRight (isWord_toString _).isLine, (isWord_hex ..).isLine, by decide,
    isLine_padRight (isWord_kind _).isLine, isLine_padRight (isWord_binding _).isLine,
    isLine_padRight (isWord_ownerText _).isLine, hname.isLine⟩

/-- The columns of a symbol, the name of which may be missing. -/
theorem readSymbol_symbolLine (hid : e.id < 100000) (howner : e.owner < 0x100000000)
    (hname : IsSolid e.name.toList) :
    readSymbol (words (symbolLine e).toList) = .ok e := by
  have hsmall : e.id < 0x100000000 := by omega
  have hread : (UInt32.ofNat e.id).toNat = e.id := UInt32.toNat_ofNat_of_lt' hsmall
  have hcolumns : readSymbolColumns (toString e.id).toList (hex 8 e.value.toNat).toList
      e.kind.name.toList e.binding.name.toList (ownerText e.owner).toList e.name.toList =
        .ok e := by
    rw [readSymbolColumns, word?_toString hsmall, word?_hex, named_kind, named_binding,
      readOwner_ownerText howner]
    simp only [need, String.ofList_toList]
    exact congrArg (fun id => Except.ok { e with id }) hread
  rw [words_symbolLine hid howner]
  by_cases hempty : e.name.toList = []
  · rw [hempty] at hcolumns ⊢
    exact hcolumns
  · rw [words_word ⟨hempty, hname⟩]
    exact hcolumns

theorem named_relocationKind (k : RelocationKind) :
    named RelocationKind.name RelocationKind.all k.name.toList = some k := by
  cases k <;> decide

/-- A text that parentheses around it cannot be mistaken for a part of. -/
structure IsOrigin (s : List Char) : Prop where
  solid : IsSolid s
  head : s.head? ≠ some '('
  last : s.getLast? ≠ some ')'

instance : DecidablePred IsOrigin := fun s =>
  decidable_of_iff (IsSolid s ∧ s.head? ≠ some '(' ∧ s.getLast? ≠ some ')')
    ⟨fun h => ⟨h.1, h.2.1, h.2.2⟩, fun h => ⟨h.solid, h.head, h.last⟩⟩

theorem dropParentheses_eq {s : List Char} (h : IsOrigin s) :
    dropParentheses ('(' :: (s ++ [')'])) = s := by
  have hopening : ('(' :: (s ++ [')'])).dropWhile (· == '(') = s ++ [')'] := by
    have hhead := h.head
    rw [List.dropWhile_cons, if_pos (by rfl)]
    cases s with
    | nil => rfl
    | cons c s =>
      have hc : (c == '(') = false := by simpa using hhead
      rw [List.cons_append, List.dropWhile_cons, hc, if_neg Bool.false_ne_true]
  have hclosing : (s ++ [')']).reverse.dropWhile (· == ')') = s.reverse := by
    have hlast := h.last
    rw [List.reverse_append, List.reverse_singleton, List.singleton_append, List.dropWhile_cons,
      if_pos (by rfl)]
    rw [← List.head?_reverse] at hlast
    cases hreverse : s.reverse with
    | nil => rfl
    | cons c t =>
      have hc : (c == ')') = false := by simpa [hreverse] using hlast
      rw [List.dropWhile_cons, hc, if_neg Bool.false_ne_true]
  rw [dropParentheses, hopening, hclosing, List.reverse_reverse]

theorem isWord_parenthesized {s : List Char} (h : IsOrigin s) :
    IsWord ('(' :: (s ++ [')'])) where
  ne_nil := List.cons_ne_nil _ _
  solid := by
    intro c hc
    rcases List.mem_cons.mp hc with rfl | hc
    · rfl
    rcases List.mem_append.mp hc with hc | hc
    · exact h.solid c hc
    · rw [List.mem_singleton.mp hc]
      rfl

theorem words_relocationLine (hsymbol : IsWord r.symbol.toList)
    (horigin : IsOrigin r.origin.toList) :
    words (relocationLine r).toList =
      [(hex 8 r.offset.toNat).toList, r.kind.name.toList, r.symbol.toList,
        (hex 8 r.addend.toNat).toList, '(' :: (r.origin.toList ++ [')'])] := by
  have horigin' : "     (".toList ++ (r.origin.toList ++ ")".toList) =
      "     ".toList ++ ('(' :: (r.origin.toList ++ [')'])) := rfl
  simp only [relocationLine, String.toList_append, List.append_assoc]
  rw [words_cell (isWord_hex ..) isGap_five, words_cell (isWord_relocationKind _) isGap_five,
    words_gap 14 hsymbol, horigin', words_cell (isWord_hex ..) isGap_five,
    words_word (isWord_parenthesized horigin)]

theorem isLine_relocationLine (hsymbol : IsWord r.symbol.toList)
    (horigin : IsOrigin r.origin.toList) : IsLine (relocationLine r).toList := by
  simp only [relocationLine, isLine_append, and_assoc]
  exact ⟨(isWord_hex ..).isLine, by decide, (isWord_relocationKind _).isLine, by decide,
    isLine_padRight hsymbol.isLine, by decide, (isWord_hex ..).isLine, by decide,
    horigin.solid.isLine, by decide⟩

theorem readRelocation_relocationLine (hsymbol : IsWord r.symbol.toList)
    (horigin : IsOrigin r.origin.toList) :
    readRelocation (words (relocationLine r).toList) = .ok r := by
  rw [words_relocationLine hsymbol horigin, readRelocation, word?_hex, word?_hex,
    named_relocationKind]
  simp only [need, dropParentheses_eq horigin, String.ofList_toList]
  rfl

theorem isWord_print (slot : Slot) : IsWord slot.print.toList := by
  cases slot with
  | word w => exact (isNumeral_of_natural? (natural?_upperHex 8 w.toNat)).isWord
  | placeholder => decide

theorem readSlot_print (slot : Slot) : readSlot slot.print.toList = .ok slot := by
  unfold readSlot
  rw [String.ofList_toList]
  cases slot with
  | word w =>
    have hmarks : upperHex 8 w.toNat ≠ "????????" := by
      intro heq
      have hnone : natural? 16 "????????".toList = none := by decide
      rw [← heq, natural?_upperHex] at hnone
      cases hnone
    rw [Slot.print, if_neg hmarks, exactWord?_upperHex]
    rfl
  | placeholder => rfl

theorem words_wordLine (w : Word × Slot) : words (wordLine w).toList =
    [(hex 4 w.1.toNat).toList ++ [':'], w.2.print.toList] := by
  have hoffset : IsWord ((hex 4 w.1.toNat).toList ++ [':']) := by
    refine ⟨by simp, fun c hc => ?_⟩
    rcases List.mem_append.mp hc with hc | hc
    · exact (isWord_hex ..).solid c hc
    · rw [List.mem_singleton.mp hc]
      rfl
  have hcolon : (hex 4 w.1.toNat).toList ++ (": ".toList ++ w.2.print.toList) =
      ((hex 4 w.1.toNat).toList ++ [':']) ++ ([' '] ++ w.2.print.toList) := by simp
  simp only [wordLine, String.toList_append, List.append_assoc]
  rw [hcolon, words_cell hoffset isGap_one,
    words_word (isWord_print _)]

theorem isLine_wordLine (w : Word × Slot) : IsLine (wordLine w).toList := by
  simp only [wordLine, isLine_append, and_assoc]
  exact ⟨(isWord_hex ..).isLine, by decide, (isWord_print _).isLine⟩

theorem readWord_wordLine (w : Word × Slot) :
    readWord (words (wordLine w).toList) = .ok w := by
  have hoffset : readOffset ((hex 4 w.1.toNat).toList ++ [':']) = .ok w.1 := by
    rw [readOffset, List.getLast?_concat, if_pos rfl, List.dropLast_concat, word?_hex]
    rfl
  rw [words_wordLine, readWord, hoffset, readSlot_print]
  rfl

end Toolchain32.Object
