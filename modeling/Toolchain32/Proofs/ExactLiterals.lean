import Mathlib.Algebra.Group.Int.Defs
import Toolchain32.Proofs.LiteralSpellings

/-!
# Numerals and the numbers they denote

`Text.Denotes` is positional notation, and `natural?_eq_some_iff_denotes` says that exactly the
numerals of a base are read, each as the number that it denotes. From this follows which texts are
literals, which of them are out of range, and which are no literals at all (`readLiteral_exact`).
-/

namespace Toolchain32

namespace Text

variable {base d n : Nat} {c : Char} {s : List Char}

def IsDigit (base : Nat) (c : Char) (d : Nat) : Prop :=
  d < base ∧ (c = d.digitChar ∨ c = d.digitChar.toUpper)

/-- One or more digits denote a number: each digit more shifts the others by one place. -/
inductive Denotes (base : Nat) : List Char → Nat → Prop
  | digit {c : Char} {d : Nat} (isDigit : IsDigit base c d) : Denotes base [c] d
  | snoc {s : List Char} {n : Nat} {c : Char} {d : Nat} (denotes : Denotes base s n)
      (isDigit : IsDigit base c d) : Denotes base (s ++ [c]) (n * base + d)

theorem digit?_eq_some_iff (hbase : base ≤ 16) : digit? base c = some d ↔ IsDigit base c d := by
  constructor
  · exact fun h => ⟨lt_of_digit? h, eq_digitChar_of_digit? hbase h⟩
  · rintro ⟨hd, rfl | rfl⟩
    · exact digit?_digitChar hd hbase
    · exact digit?_toUpper_digitChar hd hbase

theorem natural?_singleton (h : digit? base c = some d) : natural? base [c] = some d := by
  simp [natural?, pushDigit, h]

theorem natural?_snoc (hs : natural? base s = some n) (h : digit? base c = some d) :
    natural? base (s ++ [c]) = some (n * base + d) := by
  have hne : (s ++ [c]).isEmpty = false := by simp
  unfold natural? at hs
  split at hs
  · cases hs
  · rw [natural?, hne, if_neg Bool.false_ne_true, List.foldl_append, hs]
    simp [pushDigit, h]

/-- Exactly the numerals are read, each as the number that it denotes. -/
theorem natural?_eq_some_iff_denotes (hbase : base ≤ 16) :
    natural? base s = some n ↔ Denotes base s n := by
  constructor
  · intro h
    induction s using List.reverseRecOn generalizing n with
    | nil => cases h
    | append_singleton s c ih =>
      obtain ⟨m, d, hbefore, hd, rfl⟩ := natural?_append_singleton h
      have hdigit := (digit?_eq_some_iff hbase).mp hd
      rcases hbefore with ⟨rfl, rfl⟩ | hm
      · rw [Nat.zero_mul, Nat.zero_add]
        exact .digit hdigit
      · exact .snoc (ih hm) hdigit
  · intro h
    induction h with
    | digit isDigit => exact natural?_singleton ((digit?_eq_some_iff hbase).mpr isDigit)
    | snoc _ isDigit ih => exact natural?_snoc ih ((digit?_eq_some_iff hbase).mpr isDigit)

end Text

namespace Literal

open Text

variable {s : List Char} {n : Nat} {i : Int}

def DenotesHexadecimal (s : List Char) (n : Nat) : Prop :=
  ∃ x digits, (x = 'x' ∨ x = 'X') ∧ s = '0' :: x :: digits ∧ Denotes 16 digits n

/-- A decimal without superfluous zeros: the digit zero, or digits of which the first is another
one. -/
def DenotesCanonical (s : List Char) (n : Nat) : Prop :=
  Denotes 10 s n ∧ (s = ['0'] ∨ s.head? ≠ some '0')

def DenotesDecimal (s : List Char) (i : Int) : Prop :=
  ∃ digits n, DenotesCanonical digits n ∧ (s = digits ∧ i = n ∨ s = '-' :: digits ∧ i = -n)

theorem denotesCanonical_iff : DenotesCanonical s n ↔ s = Nat.toDigits 10 n := by
  rw [DenotesCanonical, ← natural?_eq_some_iff_denotes (by decide), ← canonical_iff, and_comm]
  have hne (h : natural? 10 s = some n) : s ≠ [] := (isNumeral_of_natural? h).ne_nil
  constructor
  · rintro ⟨hshape, hread⟩
    exact ⟨by simpa [isCanonical, hne hread] using hshape, hread⟩
  · rintro ⟨hcanonical, hread⟩
    exact ⟨by simpa [isCanonical, hne hread] using hcanonical, hread⟩

theorem spelling_hexadecimal_iff : Spelling (.hexadecimal n) s ↔ DenotesHexadecimal s n := by
  constructor
  · intro h
    cases h with
    | hexadecimal mark digits k n mark_eq digits_eq =>
      have hdigits : Denotes 16 digits n :=
        (natural?_eq_some_iff_denotes (by decide)).mp (natural?_sixteen_iff.mpr ⟨k, digits_eq⟩)
      rcases mark_eq with rfl | rfl
      · exact ⟨'x', digits, .inl rfl, rfl, hdigits⟩
      · exact ⟨'X', digits, .inr rfl, rfl, hdigits⟩
  · rintro ⟨x, digits, hx, rfl, hdigits⟩
    obtain ⟨k, hk⟩ :=
      natural?_sixteen_iff.mp ((natural?_eq_some_iff_denotes (by decide)).mpr hdigits)
    rcases hx with rfl | rfl
    · exact .hexadecimal "0x" digits k n (.inl rfl) hk
    · exact .hexadecimal "0X" digits k n (.inr rfl) hk

theorem spelling_decimal_iff : Spelling (.decimal i) s ↔ DenotesDecimal s i := by
  constructor
  · intro h
    cases h with
    | decimal n => exact ⟨_, n, denotesCanonical_iff.mpr rfl, .inl ⟨rfl, rfl⟩⟩
    | negative n => exact ⟨_, n, denotesCanonical_iff.mpr rfl, .inr ⟨rfl, rfl⟩⟩
  · rintro ⟨digits, n, hdigits, ⟨rfl, rfl⟩ | ⟨rfl, rfl⟩⟩
    · rw [denotesCanonical_iff.mp hdigits]
      exact .decimal n
    · rw [denotesCanonical_iff.mp hdigits]
      exact .negative n

/-- The literals that a text may spell are its hexadecimal and its decimal reading. -/
theorem exists_spelling_iff {p : Literal → Prop} : (∃ l : Literal, l.Spelling s ∧ p l) ↔
    (∃ n, DenotesHexadecimal s n ∧ p (.hexadecimal n)) ∨
      ∃ i, DenotesDecimal s i ∧ p (.decimal i) := by
  constructor
  · rintro ⟨n | i, hl, hp⟩
    · exact .inl ⟨n, spelling_hexadecimal_iff.mp hl, hp⟩
    · exact .inr ⟨i, spelling_decimal_iff.mp hl, hp⟩
  · rintro (⟨n, hn, hp⟩ | ⟨i, hi, hp⟩)
    · exact ⟨.hexadecimal n, spelling_hexadecimal_iff.mpr hn, hp⟩
    · exact ⟨.decimal i, spelling_decimal_iff.mpr hi, hp⟩

theorem fits_hexadecimal_iff : (hexadecimal n).fits = true ↔ n < 2 ^ 32 := decide_eq_true_iff

theorem fits_decimal_iff : (decimal i).fits = true ↔ -2 ^ 31 ≤ i ∧ i < 2 ^ 31 := by
  rw [fits, Bool.and_eq_true, decide_eq_true_iff, decide_eq_true_iff]
  rfl

end Literal

open Literal

theorem readLiteral_eq_error_iff {s : List Char} {e : SyntaxError} :
    readLiteral s = .error e ↔
      e = .literalRange (String.ofList s) ∧ ∃ l : Literal, l.Spelling s ∧ ¬ l.fits = true := by
  unfold readLiteral
  simp only [← Literal.read?_eq_some_iff]
  cases Literal.read? s with
  | none => simp
  | some l =>
    by_cases hfits : l.fits = true
    · simp [hfits]
    · simpa [hfits] using eq_comm

/-- Every text is a literal in range, which is read as the number that it denotes, or a literal out
of range, or has the shape of neither a hexadecimal nor a canonical decimal. -/
theorem readLiteral_exact (s : List Char) :
    (∀ i : Int, readLiteral s = .ok (some i) ↔
      (∃ n : Nat, DenotesHexadecimal s n ∧ n < 2 ^ 32 ∧ n = i) ∨
        DenotesDecimal s i ∧ -2 ^ 31 ≤ i ∧ i < 2 ^ 31) ∧
    (∀ e, readLiteral s = .error e ↔ e = .literalRange (String.ofList s) ∧
      ((∃ n, DenotesHexadecimal s n ∧ ¬ n < 2 ^ 32) ∨
        ∃ i, DenotesDecimal s i ∧ ¬ (-2 ^ 31 ≤ i ∧ i < 2 ^ 31))) ∧
    (readLiteral s = .ok none ↔
      (¬ ∃ n, DenotesHexadecimal s n) ∧ ¬ ∃ i, DenotesDecimal s i) := by
  refine ⟨fun i => ?_, fun e => ?_, ?_⟩
  · rw [readLiteral_eq_some_iff, exists_spelling_iff]
    simp only [fits_hexadecimal_iff, fits_decimal_iff]
    refine or_congr_right ⟨?_, fun ⟨hi, hrange⟩ => ⟨i, hi, hrange, rfl⟩⟩
    rintro ⟨i, hi, hrange, rfl⟩
    exact ⟨hi, hrange⟩
  · rw [readLiteral_eq_error_iff, exists_spelling_iff]
    simp only [fits_hexadecimal_iff, fits_decimal_iff]
  · have hnone := exists_spelling_iff (s := s) (p := fun _ => True)
    simp only [and_true] at hnone
    rw [readLiteral_eq_none_iff, ← not_exists, hnone, not_or]

end Toolchain32
