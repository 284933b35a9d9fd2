import Toolchain32.Proofs.PrintedObjects

/-!
# Ids that run into the next column

An id of more than five digits fills its column, so that it makes one word with the number behind
it. A table with such an id is printed, but what is printed is not read back: reading it fails at
the line of the first such id.
-/

namespace Toolchain32.Object

open Text

variable {o p : Object} {c : Block} {before : List String} {l : String} {flaw : Flaw} {s : Section}
  {e : ObjectSymbol}

theorem padRight_of_le {width : Nat} {s : String} (h : width ≤ s.length) :
    padRight width s = s := by
  rw [padRight, Nat.sub_eq_zero_of_le h]
  simp [blanks]

theorem le_length_toString {n : Nat} (h : 100000 ≤ n) : 6 ≤ (toString n).length := by
  by_contra hshort
  have hfive : (toString n).length ≤ 5 := by omega
  have hlt := (Nat.length_repr_le_iff (by decide)).mp hfive
  omega

theorem isWord_wide (n : Nat) (w : Word) :
    IsWord ((toString n).toList ++ (hex 8 w.toNat).toList) where
  ne_nil := List.append_ne_nil_of_left_ne_nil (isWord_toString n).ne_nil _
  solid c hc := (List.mem_append.mp hc).elim ((isWord_toString n).solid c)
    ((isWord_hex 8 w.toNat).solid c)

theorem words_wideSectionLine (hid : 100000 ≤ s.id) (hname : IsWord s.name.toList) :
    words (sectionLine s).toList =
      [(toString s.id).toList ++ (hex 8 s.size.toNat).toList, s.name.toList] := by
  simp only [sectionLine, padRight_of_le (le_length_toString hid), String.toList_append]
  rw [List.append_assoc _ "    ".toList, words_cell (isWord_wide ..) isGap_four, words_word hname]

theorem words_wideSymbolLine (hid : 100000 ≤ e.id) (howner : e.owner < 0x100000000)
    (hname : IsWord e.name.toList) :
    words (symbolLine e).toList =
      [(toString e.id).toList ++ (hex 8 e.value.toNat).toList, e.kind.name.toList,
        e.binding.name.toList, (ownerText e.owner).toList, e.name.toList] := by
  have hkind : e.kind.name.length < 10 := by cases e.kind <;> decide
  have hbinding : e.binding.name.length < 13 := by cases e.binding <;> decide
  have hcells : (symbolLine e).toList = ((toString e.id).toList ++ (hex 8 e.value.toNat).toList) ++
      ("    ".toList ++ ((padRight 10 e.kind.name).toList ++ ((padRight 13 e.binding.name).toList ++
        ((padRight 13 (ownerText e.owner)).toList ++ e.name.toList)))) := by
    simp only [symbolLine, padRight_of_le (le_length_toString hid), String.toList_append,
      List.append_assoc]
  rw [hcells, words_cell (isWord_wide ..) isGap_four, words_padRight (isWord_kind _) hkind,
    words_padRight (isWord_binding _) hbinding,
    words_padRight (isWord_ownerText _) (length_ownerText howner), words_word hname]

theorem readLine_wideSectionLine (hid : 100000 ≤ s.id) (hname : IsWord s.name.toList) :
    readLine o .sections (sectionLine s).toList = .error .sectionColumns := by
  have hnumeral := isNumeral_of_natural? (natural?_toString s.id)
  have hwords := words_wideSectionLine hid hname
  rw [readLine_numeral hwords (List.prefix_append _ _) hnumeral (by decide), hwords]
  rfl

theorem readLine_wideSymbolLine (hid : 100000 ≤ e.id) (howner : e.owner < 0x100000000)
    (hname : IsWord e.name.toList) :
    readLine o .symbols (symbolLine e).toList = .error .symbolId := by
  have hnumeral := isNumeral_of_natural? (natural?_toString e.id)
  have hlarge : 0x100000000 ≤ e.id * 10 ^ (hex 8 e.value.toNat).toList.length := by
    rw [length_hex]
    omega
  have hread := word?_append_eq_none (natural?_toString e.id) hlarge
  have hwords := words_wideSymbolLine hid howner hname
  rw [readLine_numeral hwords (List.prefix_append _ _) hnumeral (by decide), hwords, addRow,
    readSymbol, readSymbolColumns, hread]
  rfl

/-- Reading stops at the first line that cannot be read. -/
theorem parse_print_eq_error {n : Nat} (h : o.Spelled) (hreads : Reads before empty .outside p c)
    (hline : readLine p c l.toList = .error flaw) (hlines : before ++ [l] <+: o.printLines)
    (hn : n = 1 + before.length) : parse o.print = .error ⟨n, flaw⟩ := by
  obtain ⟨after, hafter⟩ := hlines
  have hread : readLines empty .outside 1 (o.printLines.map String.toList) = .error ⟨n, flaw⟩ := by
    rw [hn, ← hafter, List.append_assoc, List.map_append, hreads, List.singleton_append,
      List.map_cons, readLines, hline]
  rw [parse, lines_print h, hread]
  rfl

theorem take_map_isPrefix {α : Type} (row : α → String) {rows : List α} {n : Nat} {a : α}
    (h : rows[n]? = some a) : (rows.take n).map row ++ [row a] <+: rows.map row := by
  rw [← List.map_singleton, ← List.map_append, ← Option.toList_some, ← h, ← List.take_add_one]
  exact (List.take_prefix _ _).map row

/-- With more sections than there are ids of five digits, reading fails in the section table. -/
theorem parse_print_of_wideSections (h : o.Spelled)
    (hids : ∀ (i : Nat) (s : Section), o.sections[i]? = some s → s.id = i)
    (hmany : 100000 < o.sections.length) : parse o.print = .error ⟨100004, .sectionColumns⟩ := by
  have hs := List.getElem?_eq_getElem hmany
  have hreads := (reads_sectionTitle empty .outside).append
    (reads_sections (id_lt_of_mem_take hids 100000)
      (fun s hs => h.sectionNames s (List.mem_of_mem_take hs)) empty)
  have hlines := (List.prefix_append_right_inj ["", "SECTION_TABLE", "ID    VALUE       NAME"]).mpr
    (take_map_isPrefix sectionLine hs)
  rw [← List.append_assoc] at hlines
  refine parse_print_eq_error h hreads
    (readLine_wideSectionLine (hids _ _ hs).ge (h.sectionNames _ (List.mem_of_getElem? hs)))
    (hlines.trans (((List.prefix_append _ _).trans (List.prefix_append _ _)).trans
      (List.prefix_append _ _))) ?_
  simp only [List.length_append, List.length_map, List.length_take, List.length_cons,
    List.length_nil]
  omega

/-- With more symbols than there are ids of five digits, reading fails in the symbol table. -/
theorem parse_print_of_wideSymbols (h : o.Spelled) (hsections : ∀ s ∈ o.sections, s.id < 100000)
    (hids : ∀ (i : Nat) (e : ObjectSymbol), o.symbols[i]? = some e → e.id = i)
    (howners : ∀ e ∈ o.symbols, e.owner ≤ e.id) (hname : ∀ e ∈ o.symbols, e.id ≠ 0 → e.name ≠ "")
    (hmany : 100000 < o.symbols.length) :
    parse o.print = .error ⟨o.sections.length + 100007, .symbolId⟩ := by
  have he := List.getElem?_eq_getElem hmany
  have hmem := List.mem_of_getElem? he
  have hid := hids _ _ he
  have howner := howners _ hmem
  have hbefore : ∀ e ∈ o.symbols.take 100000, e.owner < 0x100000000 := by
    intro e he
    have hlt := id_lt_of_mem_take hids 100000 e he
    have hle := howners e (List.mem_of_mem_take he)
    omega
  have hreads := (((reads_sectionTitle empty .outside).append
    (reads_sections hsections h.sectionNames empty)).append (reads_symbolTitle _ _)).append
    (reads_symbols (id_lt_of_mem_take hids 100000) hbefore
      (fun e he => h.names e (List.mem_of_mem_take he)) _)
  have hword : IsWord o.symbols[100000].name.toList := by
    refine ⟨fun hnil => hname _ hmem (by omega) ?_, h.names _ hmem⟩
    exact String.toList_eq_nil_iff.mp hnil
  have hlines := (List.prefix_append_right_inj (["", "SECTION_TABLE", "ID    VALUE       NAME"] ++
    o.sections.map sectionLine ++
      ["", "SYMBOL_TABLE", "ID    VALUE       TYPE      BINDING      SECTION      NAME"])).mpr
    (take_map_isPrefix symbolLine he)
  rw [← List.append_assoc] at hlines
  refine parse_print_eq_error h hreads (readLine_wideSymbolLine hid.ge (by omega) hword)
    (hlines.trans (List.prefix_append _ _)) ?_
  simp only [List.length_append, List.length_map, List.length_take, List.length_cons,
    List.length_nil]
  omega

end Toolchain32.Object
