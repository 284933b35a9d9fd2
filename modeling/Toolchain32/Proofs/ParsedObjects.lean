import Toolchain32.Proofs.Fallible
import Toolchain32.Proofs.MergedSections

/-!
# Objects that were read

A heading opens the data of its section once, however often it stands in the text, and the check at
the end bounds every word by its section: `bounded_of_parse`.
-/

namespace Toolchain32.Object

open Fallible

variable {o p : Object} {name : String} {block opened : Block} {columns : List (List Char)}

theorem mem_sectionNames : name ∈ o.sectionNames ↔ (o.section? name).isSome = true := by
  simp [sectionNames, section?]

def dataNames (o : Object) : List String := o.data.map (·.1)

theorem names_updateEntry (name : String) (f : SectionData → SectionData)
    (entries : List (String × SectionData)) :
    (updateEntry name f entries).map (·.1) =
      if name ∈ entries.map (·.1) then entries.map (·.1) else entries.map (·.1) ++ [name] := by
  induction entries with
  | nil => rfl
  | cons e rest ih =>
    obtain ⟨key, d⟩ := e
    by_cases hkey : key = name
    · simp [updateEntry, hkey]
    · rw [updateEntry, if_neg hkey, List.map_cons, ih]
      by_cases hmem : name ∈ rest.map (·.1) <;> simp [hmem, Ne.symm hkey]

theorem nodup_updateData (h : o.dataNames.Nodup) (name : String)
    (f : SectionData → SectionData) : (o.updateData name f).dataNames.Nodup := by
  rw [dataNames, updateData, names_updateEntry]
  split
  · exact h
  · rename_i hname
    refine List.nodup_append.mpr ⟨h, by simp, ?_⟩
    rintro a ha b hb rfl
    exact hname (List.mem_singleton.mp hb ▸ ha)

theorem nodup_openBlock (h : o.dataNames.Nodup) : (o.openBlock block).dataNames.Nodup := by
  cases block with
  | outside => exact h
  | sections => exact h
  | symbols => exact h
  | relocations name => exact nodup_updateData h name id
  | words name => exact nodup_updateData h name id

theorem nodup_addRow (h : o.dataNames.Nodup) (hrow : o.addRow columns block = .ok p) :
    p.dataNames.Nodup := by
  cases block with
  | outside => cases hrow
  | sections =>
    obtain ⟨s, -, hrow⟩ := bind_eq_ok.mp hrow
    cases hrow
    exact h
  | symbols =>
    obtain ⟨s, -, hrow⟩ := bind_eq_ok.mp hrow
    cases hrow
    exact h
  | relocations name =>
    obtain ⟨r, -, hrow⟩ := bind_eq_ok.mp hrow
    cases hrow
    exact nodup_updateData h name _
  | words name =>
    obtain ⟨⟨x, slot⟩, -, hrow⟩ := bind_eq_ok.mp hrow
    cases hrow
    exact nodup_updateData h name _

theorem nodup_readLine {raw : List Char} (h : o.dataNames.Nodup)
    (hline : readLine o block raw = .ok (p, opened)) : p.dataNames.Nodup := by
  unfold readLine at hline
  dsimp only at hline
  split at hline
  · cases hline
    exact h
  split at hline
  · cases hline
    exact h
  split at hline
  · cases hline
    exact nodup_openBlock h
  · obtain ⟨q, hrow, hq⟩ := map_eq_ok.mp hline
    cases hq
    exact nodup_addRow h hrow

theorem nodup_readLines {n : Nat} {lines : List (List Char)} (h : o.dataNames.Nodup)
    (hlines : readLines o block n lines = .ok p) : p.dataNames.Nodup := by
  induction lines generalizing o block n with
  | nil =>
    cases hlines
    exact h
  | cons raw rest ih =>
    rw [readLines] at hlines
    split at hlines
    · cases hlines
    · rename_i q opened hline
      exact ih (nodup_readLine h hline) hlines

@[simp] theorem dataNames_reversed : o.reversed.dataNames = o.dataNames := by
  simp [dataNames, reversed, Function.comp_def]

theorem misplacedSymbol?_eq_none : o.misplacedSymbol? = none ↔
    ∀ (i : Nat) (s : ObjectSymbol), o.symbols[i]? = some s → s.id = i := by
  simp only [misplacedSymbol?, Option.map_eq_none_iff, List.find?_eq_none, Prod.forall,
    List.mem_zipIdx_iff_getElem?, bne_iff_ne, ne_eq, not_not]
  exact forall_comm

theorem dataFlaw?_eq_none {e : String × SectionData} :
    o.dataFlaw? e = none ↔ e.1 ∈ o.sectionNames ∧
      ∀ (x : Word) (slot : Slot), e.2.words[x]? = some slot → x.toNat + 4 ≤ o.sizeOf e.1 := by
  unfold dataFlaw? sizeOf
  rw [mem_sectionNames]
  cases hs : o.section? e.1 with
  | none => simp
  | some s =>
    simp only [Option.map_eq_none_iff, List.find?_eq_none, decide_eq_true_eq, Nat.not_lt,
      Option.isSome_some, true_and, Option.map_some, Option.getD_some, Prod.forall,
      Std.ExtTreeMap.mem_toList_iff_getElem?_eq_some]

theorem flaw?_eq_none :
    o.flaw? = none ↔
      (∀ (i : Nat) (s : ObjectSymbol), o.symbols[i]? = some s → s.id = i) ∧
      (∀ s ∈ o.sectionSymbols, s.name ∈ o.sectionNames) ∧
      ∀ e ∈ o.data, e.1 ∈ o.sectionNames ∧
        ∀ (x : Word) (slot : Slot), e.2.words[x]? = some slot → x.toNat + 4 ≤ o.sizeOf e.1 := by
  have hsymbols : (o.sectionSymbols.find? fun s => (o.section? s.name).isNone) = none ↔
      ∀ s ∈ o.sectionSymbols, s.name ∈ o.sectionNames := by
    simp [mem_sectionNames, Option.isSome_iff_ne_none]
  have hdata : o.data.findSome? o.dataFlaw? = none ↔ ∀ e ∈ o.data, e.1 ∈ o.sectionNames ∧
      ∀ (x : Word) (slot : Slot), e.2.words[x]? = some slot → x.toNat + 4 ≤ o.sizeOf e.1 := by
    simp only [List.findSome?_eq_none_iff, dataFlaw?_eq_none]
  rw [← misplacedSymbol?_eq_none, ← hsymbols, ← hdata, flaw?]
  cases o.misplacedSymbol? with
  | some s => simp
  | none =>
    cases o.sectionSymbols.find? fun s => (o.section? s.name).isNone <;> simp

theorem bounded_of_parse {text : String} (h : parse text = .ok o) : o.Bounded := by
  obtain ⟨rows, hrows, h⟩ := bind_eq_ok.mp h
  split at h
  · cases h
  · rename_i hflaw
    cases h
    have hempty : empty.dataNames.Nodup := List.nodup_nil
    have hnodup : rows.reversed.dataNames.Nodup := by
      rw [dataNames_reversed]
      exact nodup_readLines hempty hrows
    obtain ⟨-, -, hdata⟩ := flaw?_eq_none.mp hflaw
    exact ⟨hnodup, fun e he => (hdata e he).1, fun e he => (hdata e he).2⟩

end Toolchain32.Object
