import Mathlib.Data.List.Basic
import Mathlib.Data.List.Induction
import Toolchain32.Source.Value
import Toolchain32.Proofs.Numerals

/-!
# How numbers are spelled

A numeral is read as a number exactly if it consists of the digits of that number behind any count
of zeros, in either case where the base has letters for digits (`natural?_eq_some_iff`). A literal
is read exactly if the text is one of its spellings (`Literal.read?_eq_some_iff`).
-/

namespace Toolchain32

namespace Text

variable {base d m n : Nat} {c : Char} {s : List Char}

theorem after?_eq_some_iff {beginning : String} {rest : List Char} :
    after? beginning s = some rest ↔ s = beginning.toList ++ rest := by
  rw [after?, List.isPrefixOf?_eq_some_iff_append_eq, eq_comm]

theorem lt_of_digit? (h : digit? base c = some d) : d < base :=
  of_decide_eq_true (Option.filter_eq_some_iff.mp h).2

theorem eq_digitChar_of_digit? (hbase : base ≤ 16) (h : digit? base c = some d) :
    c = d.digitChar ∨ c = d.digitChar.toUpper := by
  have hdigits : ∀ n < 10, Char.ofNat (48 + n) = n.digitChar := by decide
  have hlower : ∀ n < 6, Char.ofNat (97 + n) = (n + 10).digitChar := by decide
  have hupper : ∀ n < 6, Char.ofNat (65 + n) = (n + 10).digitChar.toUpper := by decide
  have hlt := lt_of_digit? h
  have hvalue := (Option.filter_eq_some_iff.mp h).1
  rw [← Char.ofNat_toNat c]
  generalize c.toNat = n at hvalue ⊢
  simp only [Char.reduceToNat, Bool.and_eq_true, decide_eq_true_eq] at hvalue
  split at hvalue
  · cases hvalue
    rw [← hdigits (n - 48) (by omega), show 48 + (n - 48) = n by omega]
    exact .inl rfl
  split at hvalue
  · cases hvalue
    rw [← hlower (n - 97) (by omega), show 97 + (n - 97) = n by omega]
    exact .inl rfl
  split at hvalue
  · cases hvalue
    rw [← hupper (n - 65) (by omega), show 65 + (n - 65) = n by omega]
    exact .inr rfl
  · cases hvalue

/-- A decimal digit has one spelling. -/
theorem eq_digitChar (h : digit? 10 c = some d) : c = d.digitChar := by
  have hupper : ∀ d < 10, d.digitChar.toUpper = d.digitChar := by decide
  have hspelled := eq_digitChar_of_digit? (by decide) h
  rwa [hupper d (lt_of_digit? h), or_self] at hspelled

theorem toLower_eq_digitChar (h : digit? 16 c = some d) : c.toLower = d.digitChar := by
  have hlower : ∀ d < 16, d.digitChar.toLower = d.digitChar ∧
      d.digitChar.toUpper.toLower = d.digitChar := by decide
  obtain ⟨hsame, hupper⟩ := hlower d (lt_of_digit? h)
  rcases eq_digitChar_of_digit? (Nat.le_refl 16) h with rfl | rfl
  · exact hsame
  · exact hupper

theorem exists_upper_of_toLower_ne (h : c.toLower ≠ c) : ∃ n < 26, c = Char.ofNat (65 + n) := by
  unfold Char.toLower at h
  split at h
  · rename_i hrange
    have hlow : 65 ≤ c.toNat := UInt32.le_iff_toNat_le.mp hrange.1
    have hhigh : c.toNat ≤ 90 := UInt32.le_iff_toNat_le.mp hrange.2
    refine ⟨c.toNat - 65, by omega, ?_⟩
    rw [show 65 + (c.toNat - 65) = c.toNat by omega, Char.ofNat_toNat]
  · exact absurd rfl h

theorem digit?_toLower (c : Char) : digit? 16 c.toLower = digit? 16 c := by
  have hupper : ∀ n < 26, digit? 16 (Char.ofNat (65 + n)).toLower =
      digit? 16 (Char.ofNat (65 + n)) := by decide
  by_cases h : c.toLower = c
  · rw [h]
  · obtain ⟨n, hn, rfl⟩ := exists_upper_of_toLower_ne h
    exact hupper n hn

theorem natural?_append_singleton (h : natural? base (s ++ [c]) = some n) :
    ∃ m d, (s = [] ∧ m = 0 ∨ natural? base s = some m) ∧ digit? base c = some d ∧
      m * base + d = n := by
  have hne : (s ++ [c]).isEmpty = false := by simp
  rw [natural?, hne, List.foldl_append] at h
  obtain ⟨m, hm, h⟩ := Option.bind_eq_some_iff.mp h
  obtain ⟨d, hd, hn⟩ := Option.map_eq_some_iff.mp h
  refine ⟨m, d, ?_, hd, hn⟩
  cases s with
  | nil => exact .inl ⟨rfl, (Option.some.inj hm).symm⟩
  | cons a s => exact .inr hm

theorem toDigits_mul_add (hone : 1 < base) (hd : d < base) (m : Nat) :
    Nat.toDigits base (m * base + d) =
      if m = 0 then [d.digitChar] else Nat.toDigits base m ++ [d.digitChar] := by
  have hpos : 0 < base := by omega
  have hdiv : (m * base + d) / base = m := by
    rw [Nat.mul_comm, Nat.mul_add_div hpos, Nat.div_eq_of_lt hd, Nat.add_zero]
  have hmod : (m * base + d) % base = d := by
    rw [Nat.mul_comm, Nat.mul_add_mod, Nat.mod_eq_of_lt hd]
  rw [Nat.toDigits_eq_if hone, hdiv, hmod]
  by_cases hm : m = 0
  · simp [hm, hd]
  · have hle : base ≤ m * base := Nat.le_mul_of_pos_left base (Nat.pos_of_ne_zero hm)
    rw [if_neg hm, if_neg (by omega)]

theorem natural?_map {f : Char → Char} (hf : ∀ c, digit? base (f c) = digit? base c)
    (s : List Char) : natural? base (s.map f) = natural? base s := by
  have hpush (read : Option Nat) (c : Char) :
      pushDigit base read (f c) = pushDigit base read c := by
    rw [pushDigit, hf, pushDigit]
  rw [natural?, natural?, List.isEmpty_map, List.foldl_map]
  simp only [hpush]

/-- A numeral is what its digits are in one spelling, behind any count of zeros. -/
theorem natural?_eq_some_iff {f : Char → Char} (hone : 1 < base) (hbase : base ≤ 16)
    (hf : ∀ c, digit? base (f c) = digit? base c)
    (hspelled : ∀ c d, digit? base c = some d → f c = d.digitChar) :
    natural? base s = some n ↔ ∃ k, s.map f = List.replicate k '0' ++ Nat.toDigits base n := by
  constructor
  · intro h
    induction s using List.reverseRecOn generalizing n with
    | nil => cases h
    | append_singleton s c ih =>
      obtain ⟨m, d, hbefore, hd, rfl⟩ := natural?_append_singleton h
      rw [List.map_append, List.map_singleton, hspelled c d hd,
        toDigits_mul_add hone (lt_of_digit? hd)]
      rcases hbefore with ⟨rfl, rfl⟩ | hm
      · exact ⟨0, rfl⟩
      obtain ⟨k, hk⟩ := ih hm
      rw [hk]
      by_cases hzero : m = 0
      · -- What stands before the last digit are zeros, the one digit of zero among them.
        subst hzero
        exact ⟨k + 1, by simp [List.replicate_succ', Nat.toDigits_of_lt_base (by omega : 0 < base)]⟩
      · exact ⟨k, by rw [if_neg hzero, List.append_assoc]⟩
  · rintro ⟨k, hk⟩
    have hdigits := natural?_digits (f := id) hone
      (fun d hd => digit?_digitChar hd hbase) k n
    rwa [List.map_id, ← hk, natural?_map hf] at hdigits

theorem natural?_sixteen_iff : natural? 16 s = some n ↔
    ∃ k, s.map Char.toLower = List.replicate k '0' ++ Nat.toDigits 16 n :=
  natural?_eq_some_iff (by decide) (by decide) digit?_toLower fun _ _ => toLower_eq_digitChar

theorem natural?_ten_iff : natural? 10 s = some n ↔
    ∃ k, s = List.replicate k '0' ++ Nat.toDigits 10 n := by
  have hdigits := natural?_eq_some_iff (f := id) (s := s) (n := n) (by decide : 1 < 10) (by decide)
    (fun _ => rfl) fun _ _ => eq_digitChar
  rwa [List.map_id] at hdigits

/-- The digits of a number other than zero begin with another digit than zero. -/
theorem head?_toDigits (hn : n ≠ 0) : (Nat.toDigits 10 n).head? ≠ some '0' := by
  induction n using Nat.strongRecOn with
  | ind n ih =>
    rw [Nat.toDigits_eq_if (by decide)]
    split
    · have hdigit : ∀ n < 10, n ≠ 0 → n.digitChar ≠ '0' := by decide
      rename_i hlt
      simpa using hdigit n hlt hn
    · have hhead := ih (n / 10) (by omega) (by omega)
      rwa [List.head?_append_of_ne_nil _ Nat.toDigits_ne_nil]

end Text

namespace Literal

open Text

variable {n : Nat} {s digits : List Char} {l : Literal}

theorem isCanonical_replicate_append (k n : Nat) :
    isCanonical (List.replicate k '0' ++ Nat.toDigits 10 n) = true ↔ k = 0 := by
  cases k with
  | zero =>
    by_cases hn : n = 0
    · subst hn
      exact iff_of_true rfl rfl
    · simp [isCanonical, head?_toDigits hn]
  | succ k => simp [isCanonical, List.replicate_succ]

/-- The digits of a canonical decimal are those of its number, and none besides. -/
theorem canonical_iff :
    isCanonical digits = true ∧ natural? 10 digits = some n ↔ digits = Nat.toDigits 10 n := by
  rw [natural?_ten_iff]
  constructor
  · rintro ⟨hcanonical, k, rfl⟩
    obtain rfl := (isCanonical_replicate_append k n).mp hcanonical
    rfl
  · rintro rfl
    exact ⟨(isCanonical_replicate_append 0 n).mpr rfl, 0, rfl⟩

/-- The spellings of a literal: a hexadecimal may have zeros in front and letters in either case, a
decimal has its digits only. -/
inductive Spelling : Literal → List Char → Prop
  | hexadecimal (mark : String) (digits : List Char) (k n : Nat)
      (mark_eq : mark = "0x" ∨ mark = "0X")
      (digits_eq : digits.map Char.toLower = List.replicate k '0' ++ Nat.toDigits 16 n) :
      Spelling (.hexadecimal n) (mark.toList ++ digits)
  | decimal (n : Nat) : Spelling (.decimal n) (Nat.toDigits 10 n)
  | negative (n : Nat) : Spelling (.decimal (-n)) ('-' :: Nat.toDigits 10 n)

theorem hexDigits?_eq_some_iff : hexDigits? s = some digits ↔
    ∃ mark : String, (mark = "0x" ∨ mark = "0X") ∧ s = mark.toList ++ digits := by
  unfold hexDigits?
  constructor
  · intro h
    split at h
    · rename_i hlower
      cases h
      exact ⟨"0x", .inl rfl, after?_eq_some_iff.mp hlower⟩
    · exact ⟨"0X", .inr rfl, after?_eq_some_iff.mp h⟩
  · rintro ⟨mark, rfl | rfl, rfl⟩ <;> rfl

/-- Only a hexadecimal literal has its mark. -/
theorem hexDigits?_toDigits (n : Nat) : hexDigits? (Nat.toDigits 10 n) = none := by
  rw [Option.eq_none_iff_forall_ne_some]
  intro digits h
  obtain ⟨mark, hmark, hs⟩ := hexDigits?_eq_some_iff.mp h
  have hdigit (c : Char) (hc : c ∈ mark.toList) : c.isDigit = true :=
    Nat.isDigit_of_mem_toDigits (by decide) (by decide) (hs ▸ List.mem_append_left digits hc)
  rcases hmark with rfl | rfl
  · exact absurd (hdigit 'x' (by decide)) (by decide)
  · exact absurd (hdigit 'X' (by decide)) (by decide)

theorem readCanonical_eq_some_iff {make : Int → Literal} :
    (if isCanonical digits then ((natural? 10 digits).bind fun n => some (n : Int)).map make
      else none) = some l ↔ ∃ n : Nat, l = make n ∧ digits = Nat.toDigits 10 n := by
  simp only [Option.ite_none_right_eq_some, Option.map_eq_some_iff, Option.bind_eq_some_iff,
    Option.some.injEq, ← canonical_iff]
  constructor
  · rintro ⟨hcanonical, -, ⟨n, hn, rfl⟩, rfl⟩
    exact ⟨n, rfl, hcanonical, hn⟩
  · rintro ⟨n, rfl, hcanonical, hn⟩
    exact ⟨hcanonical, n, ⟨n, hn, rfl⟩, rfl⟩

theorem readDecimal?_toDigits (n : Nat) : readDecimal? (Nat.toDigits 10 n) = some (.decimal n) := by
  have hafter : after? "-" (Nat.toDigits 10 n) = none := by
    rw [Option.eq_none_iff_forall_ne_some]
    intro rest h
    have hmem : '-' ∈ Nat.toDigits 10 n := after?_eq_some_iff.mp h ▸ List.mem_cons_self
    exact absurd (Nat.isDigit_of_mem_toDigits (by decide) (by decide) hmem) (by decide)
  rw [readDecimal?, hafter]
  exact readCanonical_eq_some_iff.mpr ⟨n, rfl, rfl⟩

/-- A text is read as a literal exactly if it spells that literal. -/
theorem read?_eq_some_iff : read? s = some l ↔ Spelling l s := by
  unfold read?
  constructor
  · intro h
    split at h
    · rename_i digits hdigits
      obtain ⟨mark, hmark, rfl⟩ := hexDigits?_eq_some_iff.mp hdigits
      obtain ⟨n, hn, rfl⟩ := Option.map_eq_some_iff.mp h
      obtain ⟨k, hk⟩ := natural?_sixteen_iff.mp hn
      exact .hexadecimal mark digits k n hmark hk
    · unfold readDecimal? at h
      split at h
      · rename_i digits hdigits
        obtain rfl := after?_eq_some_iff.mp hdigits
        obtain ⟨n, rfl, rfl⟩ := readCanonical_eq_some_iff.mp h
        exact .negative n
      · obtain ⟨n, rfl, rfl⟩ := readCanonical_eq_some_iff.mp h
        exact .decimal n
  · intro h
    cases h with
    | hexadecimal mark digits k n hmark hk =>
      rw [hexDigits?_eq_some_iff.mpr ⟨mark, hmark, rfl⟩]
      exact Option.map_eq_some_iff.mpr ⟨n, natural?_sixteen_iff.mpr ⟨k, hk⟩, rfl⟩
    | decimal n =>
      rw [hexDigits?_toDigits]
      exact readDecimal?_toDigits n
    | negative n =>
      have hmark : hexDigits? ('-' :: Nat.toDigits 10 n) = none := rfl
      rw [hmark]
      exact readCanonical_eq_some_iff.mpr ⟨n, rfl, rfl⟩

end Literal

/-- A literal is the number of a text exactly if the text is a spelling of that number in range. -/
theorem readLiteral_eq_some_iff {s : List Char} {n : Int} : readLiteral s = .ok (some n) ↔
    ∃ l : Literal, l.Spelling s ∧ l.fits = true ∧ l.value = n := by
  unfold readLiteral
  simp only [← Literal.read?_eq_some_iff]
  cases Literal.read? s with
  | none => simp
  | some l => by_cases hfits : l.fits <;> simp [hfits]

theorem readLiteral_eq_none_iff {s : List Char} : readLiteral s = .ok none ↔
    ∀ l : Literal, ¬ l.Spelling s := by
  unfold readLiteral
  simp only [← Literal.read?_eq_some_iff]
  cases Literal.read? s with
  | none => simp
  | some l => by_cases hfits : l.fits <;> simp [hfits]

end Toolchain32
