import Toolchain32.Proofs.LegalLines
import Toolchain32.Proofs.TextRows

/-!
# The shape of names

The names of symbols and sections are words without any mark of punctuation but dots and
underscores.
-/

namespace Toolchain32

open Text

def TableName (name : String) : Prop := isSectionName name.toList = true

theorem tableName_of_symbolName {name : String} (h : SymbolName name) : TableName name := by
  rw [SymbolName] at h
  rw [TableName]
  cases hname : name.toList with
  | nil =>
    rw [hname] at h
    cases h
  | cons c rest =>
    rw [hname, isSymbolName, Bool.and_eq_true, List.all_eq_true] at h
    rw [isSectionName, h.1, Bool.true_or, Bool.true_and, List.all_eq_true]
    intro d hd
    rw [h.2 d hd, Bool.true_or]

theorem toNat_of_isAlphanum {c : Char} (h : c.isAlphanum = true) :
    48 ≤ c.toNat ∧ c.toNat ≤ 122 := by
  have hranges : (decide ('A'.val ≤ c.val ∧ c.val ≤ 'Z'.val) ||
      (decide ('a'.val ≤ c.val) && decide (c.val ≤ 'z'.val)) ||
      (decide ('0'.val ≤ c.val) && decide (c.val ≤ '9'.val))) = true := h
  simp only [Bool.or_eq_true, Bool.and_eq_true, decide_eq_true_eq, UInt32.le_iff_toNat_le]
    at hranges
  change ((65 ≤ c.toNat ∧ c.toNat ≤ 90) ∨ (97 ≤ c.toNat ∧ c.toNat ≤ 122)) ∨
    (48 ≤ c.toNat ∧ c.toNat ≤ 57) at hranges
  omega

namespace TableName

variable {name : String}

theorem cases_of_mem (h : TableName name) : ∀ c ∈ name.toList,
    (c.isAlphanum = true ∨ c = '_') ∨ c = '.' := by
  intro c hc
  rw [TableName] at h
  cases hname : name.toList with
  | nil =>
    rw [hname] at hc
    cases hc
  | cons d rest =>
    rw [hname] at h hc
    simp only [isSectionName, Bool.and_eq_true, Bool.or_eq_true, beq_iff_eq,
      List.all_eq_true] at h
    rcases List.mem_cons.mp hc with rfl | hc
    · exact h.1.imp_left fun hfirst => hfirst.imp_left fun halpha =>
        Bool.or_eq_true_iff.mpr (.inl halpha)
    · exact h.2 c hc

theorem toNat_of_mem (h : TableName name) : ∀ c ∈ name.toList, 46 ≤ c.toNat ∧ c.toNat ≤ 122 := by
  intro c hc
  rcases h.cases_of_mem c hc with (halphanum | rfl) | rfl
  · have hrange := toNat_of_isAlphanum halphanum
    omega
  · decide
  · decide

theorem isWord (h : TableName name) : IsWord name.toList where
  ne_nil hnil := by
    rw [TableName, hnil] at h
    cases h
  solid c hc := by
    have hrange := h.toNat_of_mem c hc
    simp only [isBlank, Bool.or_eq_false_iff, Bool.and_eq_false_iff, decide_eq_false_iff_not,
      beq_eq_false_iff_ne]
    omega

end TableName

end Toolchain32
