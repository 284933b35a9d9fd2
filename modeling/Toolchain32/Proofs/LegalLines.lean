import Toolchain32.Source.Line
import Toolchain32.Proofs.Fallible
import Toolchain32.Proofs.InstructionCodec

/-!
# The lines that reading gives

Every number that a line holds is within the range of its place, and every name has the shape of
one: `Line.legal_of_read`. What comes after reading may rely on that.
-/

namespace Toolchain32

open Fallible

namespace Literal

/-- A literal that fits stands for a number between -2^31 and 2^32 - 1. -/
theorem value_of_fits {l : Literal} (h : l.fits = true) :
    -0x80000000 ≤ l.value ∧ l.value < 0x100000000 := by
  cases l with
  | hexadecimal n =>
    have hn : n < 0x100000000 := by simpa [fits] using h
    change -0x80000000 ≤ (n : Int) ∧ (n : Int) < 0x100000000
    omega
  | decimal i =>
    have hi : -0x80000000 ≤ i ∧ i < 0x80000000 := by simpa [fits] using h
    change -0x80000000 ≤ i ∧ i < 0x100000000
    omega

end Literal

theorem range_of_readLiteral {s : List Char} {n : Int} (h : readLiteral s = .ok (some n)) :
    -0x80000000 ≤ n ∧ n < 0x100000000 := by
  unfold readLiteral at h
  cases hl : Literal.read? s with
  | none => simp [hl] at h
  | some l =>
    by_cases hfits : l.fits
    · simp only [hl, hfits, if_true, Except.ok.injEq, Option.some.injEq] at h
      exact h ▸ Literal.value_of_fits hfits
    · simp [hl, hfits] at h

def SymbolName (name : String) : Prop := isSymbolName name.toList = true

namespace Value

def Legal : Value → Prop
  | literal n => -0x80000000 ≤ n ∧ n < 0x100000000
  | symbol name => SymbolName name

theorem legal_of_read {s : List Char} {v : Value} (h : read s = .ok v) : v.Legal := by
  unfold read at h
  cases hl : readLiteral s with
  | error e => simp [hl] at h
  | ok literal? =>
    cases literal? with
    | some n =>
      simp only [hl, Except.ok.injEq] at h
      exact h ▸ range_of_readLiteral hl
    | none =>
      by_cases hname : isSymbolName s
      · simp only [hl, hname, if_true, Except.ok.injEq] at h
        subst h
        simpa [Legal, SymbolName] using hname
      · simp [hl, hname] at h

end Value

namespace Place

def Legal : Place → Prop
  | memory v => v.Legal
  | register _ => True
  | indirect _ d => FitsDisplacement d

theorem exists_of_readDisplacement {s : List Char} {d : Int16} (h : readDisplacement s = .ok d) :
    ∃ n, Value.read s = .ok (.literal n) ∧ (-2048 ≤ n ∧ n ≤ 2047) ∧ d.toInt = n := by
  unfold readDisplacement at h
  rw [bind_eq_ok] at h
  obtain ⟨v, hv, h⟩ := h
  cases v with
  | symbol name => cases h
  | literal n =>
    by_cases hn : -2048 ≤ n ∧ n ≤ 2047
    · simp only [hn, and_self, if_true] at h
      cases h
      exact ⟨n, hv, hn, Int16.toInt_ofInt_of_le (by omega) (by omega)⟩
    · simp only [hn, if_false] at h
      cases h

theorem fits_of_readDisplacement {s : List Char} {d : Int16} (h : readDisplacement s = .ok d) :
    FitsDisplacement d := by
  obtain ⟨n, -, hn, hd⟩ := exists_of_readDisplacement h
  rw [FitsDisplacement, hd]
  exact hn

theorem legal_of_readIndirect {inner : List Char} {p : Place} (h : readIndirect inner = .ok p) :
    p.Legal := by
  unfold readIndirect at h
  split at h
  · rw [map_eq_ok] at h
    obtain ⟨base, -, rfl⟩ := h
    exact (by decide : FitsDisplacement 0)
  · rw [bind_eq_ok] at h
    obtain ⟨base, -, h⟩ := h
    rw [bind_eq_ok] at h
    obtain ⟨d, hd, h⟩ := h
    cases h
    exact fits_of_readDisplacement hd

theorem legal_of_read {s : List Char} {p : Place} (h : read s = .ok p) : p.Legal := by
  unfold read at h
  split at h
  · rw [map_eq_ok] at h
    obtain ⟨r, -, rfl⟩ := h
    trivial
  · split at h
    · exact legal_of_readIndirect h
    · rw [map_eq_ok] at h
      obtain ⟨v, hv, rfl⟩ := h
      exact Value.legal_of_read hv

end Place

namespace Operand

def Legal : Operand → Prop
  | immediate v => v.Legal
  | place p => p.Legal

theorem legal_of_read {s : List Char} {o : Operand} (h : read s = .ok o) : o.Legal := by
  unfold read at h
  split at h <;> rw [map_eq_ok] at h
  · obtain ⟨v, hv, rfl⟩ := h
    exact Value.legal_of_read hv
  · obtain ⟨p, hp, rfl⟩ := h
    exact Place.legal_of_read hp

end Operand

namespace Operation

def Legal : Operation → Prop
  | call v | jump v | branch _ _ _ v => v.Legal
  | load source _ => source.Legal
  | store _ target => target.Legal
  | halt | interrupt | interruptReturn | subroutineReturn | push _ | pop _ | exchange .. | arith ..
  | logic .. | complement _ | shift .. | readControl .. | writeControl .. => True

def value? : Operation → Option Value
  | call v | jump v | branch _ _ _ v | load (.immediate v) _ | load (.place (.memory v)) _
  | store _ (.memory v) => some v
  | _ => none

theorem legal_of_value {op : Operation} (hlegal : op.Legal) {v : Value}
    (h : op.value? = some v) : v.Legal := by
  cases op with
  | call | jump | branch =>
    cases h
    exact hlegal
  | load source t =>
    cases source with
    | immediate =>
      cases h
      exact hlegal
    | place p =>
      cases p <;> cases h
      exact hlegal
  | store s target =>
    cases target <;> cases h
    exact hlegal
  | _ => cases h

end Operation

namespace Form

def Legal : Form → Prop
  | bare operation => operation.Legal
  | value make => ∀ v : Value, v.Legal → (make v).Legal
  | register make => ∀ r, (make r).Legal
  | registers make => ∀ r s, (make r s).Legal
  | branch _ | readControl | writeControl | load | store => True

theorem legal_of_mem : ∀ e ∈ forms, e.2.Legal := by
  simp [forms, Legal, Operation.Legal]

theorem legal_of_read {form : Form} {arguments : List (List Char)} {op : Operation}
    (hform : form.Legal) (h : form.read arguments = .ok op) : op.Legal := by
  cases form with
  | bare operation =>
    cases h
    exact hform
  | value make =>
    simp only [read, bind_eq_ok] at h
    obtain ⟨s, -, v, hv, h⟩ := h
    cases h
    exact hform v (Value.legal_of_read hv)
  | register make =>
    simp only [read, bind_eq_ok] at h
    obtain ⟨s, -, r, -, h⟩ := h
    cases h
    exact hform r
  | registers make =>
    simp only [read, bind_eq_ok] at h
    obtain ⟨s, -, r, -, t, -, r', -, h⟩ := h
    cases h
    exact hform r r'
  | branch condition =>
    simp only [read, bind_eq_ok] at h
    obtain ⟨s, -, b, -, t, -, c, -, u, -, v, hv, h⟩ := h
    cases h
    exact Value.legal_of_read hv
  | readControl | writeControl =>
    simp only [read, bind_eq_ok] at h
    obtain ⟨s, -, first, -, t, -, second, -, h⟩ := h
    cases h
    trivial
  | load =>
    simp only [read, bind_eq_ok] at h
    obtain ⟨s, -, source, hsource, t, -, target, -, h⟩ := h
    cases h
    exact Operand.legal_of_read hsource
  | store =>
    simp only [read, bind_eq_ok] at h
    obtain ⟨s, -, source, -, t, -, target, htarget, h⟩ := h
    cases target with
    | immediate v => cases h
    | place p =>
      cases h
      exact Operand.legal_of_read htarget

end Form

/-- An operation is read by the form of its mnemonic, from no more arguments than that takes. -/
theorem Operation.exists_form_of_read {mnemonic : String} {arguments : List (List Char)}
    {op : Operation} (h : Operation.read mnemonic arguments = .ok op) :
    ∃ form, (mnemonic, form) ∈ forms ∧ arguments.length ≤ form.arity ∧
      form.read arguments = .ok op := by
  unfold Operation.read at h
  cases hform : forms.lookup mnemonic with
  | none =>
    simp only [hform] at h
    split at h <;> cases h
  | some form =>
    simp only [hform] at h
    split at h
    · cases h
    · rename_i harity
      obtain ⟨before, after, hsplit, -⟩ := List.lookup_eq_some_iff.mp hform
      have hmem : (mnemonic, form) ∈ forms := by
        rw [hsplit]
        exact List.mem_append_right before List.mem_cons_self
      exact ⟨form, hmem, Nat.not_lt.mp harity, h⟩

theorem Operation.legal_of_read {mnemonic : String} {arguments : List (List Char)}
    {op : Operation} (h : Operation.read mnemonic arguments = .ok op) : op.Legal := by
  obtain ⟨form, hmem, -, hread⟩ := exists_form_of_read h
  exact Form.legal_of_read (Form.legal_of_mem _ hmem) hread

namespace Statement

def Legal : Statement → Prop
  | global names | external names => ∀ name ∈ names, SymbolName name
  | openSection name => isSectionName name.toList = true
  | words values => ∀ v ∈ values, v.Legal
  | operation op => op.Legal
  | skip _ | finish => True

theorem names_of_readNames {arguments : List (List Char)} {names : List String}
    (h : readNames arguments = .ok names) : ∀ name ∈ names, SymbolName name := by
  unfold readNames at h
  split at h
  · cases h
  · intro name hname
    obtain ⟨s, -, hs⟩ := exists_of_mem_mapM h hname
    by_cases hsymbol : isSymbolName s
    · simp only [hsymbol, if_true, Except.ok.injEq] at hs
      simpa [← hs, SymbolName] using hsymbol
    · simp [hsymbol] at hs

theorem name_of_readSectionName {arguments : List (List Char)} {name : String}
    (h : readSectionName arguments = .ok name) : isSectionName name.toList = true := by
  unfold readSectionName at h
  split at h
  · cases h
  · rename_i s
    by_cases hs : isSectionName s
    · simp only [hs, if_true, Except.ok.injEq] at h
      simpa [← h] using hs
    · simp [hs] at h
  · cases h

theorem legal_of_readWords {arguments : List (List Char)} {values : List Value}
    (h : readWords arguments = .ok values) : ∀ v ∈ values, v.Legal := by
  unfold readWords at h
  split at h
  · cases h
  · intro v hv
    obtain ⟨s, -, hs⟩ := exists_of_mem_mapM h hv
    exact Value.legal_of_read hs

theorem legal_of_ofParts {head : String} {arguments : List (List Char)} {s : Statement}
    (h : ofParts head arguments = .ok s) : s.Legal := by
  unfold ofParts at h
  split at h
  case h_6 =>
    split at h <;> cases h
    trivial
  all_goals
    rw [map_eq_ok] at h
    obtain ⟨_, h, rfl⟩ := h
  · exact names_of_readNames h
  · exact names_of_readNames h
  · exact name_of_readSectionName h
  · exact legal_of_readWords h
  · trivial
  · exact Operation.legal_of_read h

theorem legal_of_read {code : List Char} {s : Statement} (h : read code = .ok s) : s.Legal := by
  unfold read at h
  split at h <;> exact legal_of_ofParts h

end Statement

namespace Line

structure Legal (l : Line) : Prop where
  label : ∀ name ∈ l.label, SymbolName name
  statement : ∀ s ∈ l.statement, s.Legal

theorem name_of_splitLabel {code : List Char} {name : String}
    (h : name ∈ (splitLabel code).1) : SymbolName name := by
  unfold splitLabel at h
  split at h
  · split at h
    · rename_i hname
      cases h
      simpa [SymbolName] using hname
    · cases h
  · cases h

theorem legal_of_readChars {raw : List Char} {l : Line} (h : readChars raw = .ok l) :
    l.Legal := by
  unfold readChars at h
  have hlabel : ∀ name ∈ (splitLabel (withoutComment raw)).1, SymbolName name :=
    fun _ hname => name_of_splitLabel hname
  split at h
  rename_i label rest hsplit
  rw [hsplit] at hlabel
  split at h
  · cases h
    exact ⟨hlabel, by rintro s ⟨⟩⟩
  · rw [map_eq_ok] at h
    obtain ⟨s, hs, rfl⟩ := h
    refine ⟨hlabel, ?_⟩
    rintro _ ⟨rfl⟩
    exact Statement.legal_of_read hs

/-- Whatever a line is, reading it gives numbers in range and names in shape. -/
theorem legal_of_read {raw : String} {l : Line} (h : read raw = .ok l) : l.Legal :=
  legal_of_readChars h

end Line

end Toolchain32
