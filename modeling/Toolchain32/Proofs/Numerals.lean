import Mathlib.Algebra.Group.Nat.Defs
import Toolchain32.Text.Blank
import Toolchain32.Text.Numeral

/-!
# Numerals read back

What `hex`, `upperHex` and `toString` write is read as the number written, whatever the padding:
`word?_hex`, `word?_toString` and `exactWord?_upperHex`. A numeral is made of digits, and a digit is
neither blank nor a mark of punctuation.
-/

namespace Toolchain32.Text

variable {base d k m n : Nat} {c : Char} {s t : List Char}

theorem digit?_digitChar (hd : d < base) (hbase : base ≤ 16) :
    digit? base d.digitChar = some d := by
  have hall : ∀ base ≤ 16, ∀ d < base, digit? base d.digitChar = some d := by decide
  exact hall base hbase d hd

theorem digit?_toUpper_digitChar (hd : d < base) (hbase : base ≤ 16) :
    digit? base d.digitChar.toUpper = some d := by
  have hall : ∀ base ≤ 16, ∀ d < base, digit? base d.digitChar.toUpper = some d := by decide
  exact hall base hbase d hd

/-- A digit is a digit or a letter of ASCII. -/
theorem isAlphanum_of_digit? (h : (digit? base c).isSome = true) :
    ('0'.toNat ≤ c.toNat ∧ c.toNat ≤ '9'.toNat) ∨ ('a'.toNat ≤ c.toNat ∧ c.toNat ≤ 'z'.toNat) ∨
      ('A'.toNat ≤ c.toNat ∧ c.toNat ≤ 'Z'.toNat) := by
  unfold digit? at h
  dsimp only at h
  split at h
  · rename_i hdigit
    exact .inl (by simpa using hdigit)
  split at h
  · rename_i hlower
    exact .inr (.inl (by simpa using hlower))
  split at h
  · rename_i hupper
    exact .inr (.inr (by simpa using hupper))
  · cases h

theorem toNat_of_digit? (h : (digit? base c).isSome = true) :
    48 ≤ c.toNat ∧ c.toNat ≤ 122 ∧ c.toNat ≠ 58 := by
  have hrange := isAlphanum_of_digit? h
  change (48 ≤ c.toNat ∧ c.toNat ≤ 57) ∨ (97 ≤ c.toNat ∧ c.toNat ≤ 122) ∨
    (65 ≤ c.toNat ∧ c.toNat ≤ 90) at hrange
  omega

theorem isBlank_of_digit? (h : (digit? base c).isSome = true) : isBlank c = false := by
  have hrange := toNat_of_digit? h
  simp only [isBlank, Bool.or_eq_false_iff, Bool.and_eq_false_iff, decide_eq_false_iff_not,
    beq_eq_false_iff_ne]
  omega

theorem digit?_mono {base' : Nat} (hbase : base ≤ base') (h : (digit? base c).isSome = true) :
    (digit? base' c).isSome = true := by
  obtain ⟨d, hd⟩ := Option.isSome_iff_exists.mp h
  unfold digit? at hd ⊢
  dsimp only at hd ⊢
  obtain ⟨hvalue, hlt⟩ := Option.filter_eq_some_iff.mp hd
  have hd' : d < base' := Nat.lt_of_lt_of_le (of_decide_eq_true hlt) hbase
  rw [hvalue]
  simp [hd']

structure IsNumeral (base : Nat) (s : List Char) : Prop where
  ne_nil : s ≠ []
  digits : ∀ c ∈ s, (digit? base c).isSome = true

theorem IsNumeral.exists_cons (h : IsNumeral base s) (hbase : base ≤ 16) :
    ∃ c rest, s = c :: rest ∧ (digit? 16 c).isSome = true := by
  obtain ⟨c, rest, rfl⟩ := List.exists_cons_of_ne_nil h.ne_nil
  exact ⟨c, rest, rfl, digit?_mono hbase (h.digits c List.mem_cons_self)⟩

theorem foldl_pushDigit_none (s : List Char) : s.foldl (pushDigit base) none = none := by
  induction s with
  | nil => rfl
  | cons c rest ih => exact ih

theorem foldl_pushDigit_cons (c : Char) (rest : List Char) :
    (c :: rest).foldl (pushDigit base) (some m) =
      (digit? base c).bind fun d => rest.foldl (pushDigit base) (some (m * base + d)) := by
  rw [List.foldl_cons, pushDigit, Option.bind_some]
  cases digit? base c with
  | none => exact foldl_pushDigit_none rest
  | some d => rfl

/-- A read number is made of digits, and each of them shifts what was read before it. -/
theorem foldl_pushDigit_eq_some (h : s.foldl (pushDigit base) (some m) = some n) :
    (∀ c ∈ s, (digit? base c).isSome = true) ∧ m * base ^ s.length ≤ n := by
  induction s generalizing m with
  | nil =>
    obtain rfl := Option.some.inj h
    simp
  | cons c rest ih =>
    rw [foldl_pushDigit_cons] at h
    obtain ⟨d, hd, h⟩ := Option.bind_eq_some_iff.mp h
    obtain ⟨hdigits, hle⟩ := ih h
    refine ⟨?_, ?_⟩
    · intro c' hc'
      rcases List.mem_cons.mp hc' with rfl | hc'
      · rw [hd]
        rfl
      · exact hdigits c' hc'
    · calc m * base ^ (rest.length + 1) = m * base * base ^ rest.length := by
            rw [Nat.pow_succ, Nat.mul_comm (base ^ _), Nat.mul_assoc]
        _ ≤ (m * base + d) * base ^ rest.length := Nat.mul_le_mul_right _ (Nat.le_add_right ..)
        _ ≤ n := hle

theorem isNumeral_of_natural? (h : natural? base s = some n) : IsNumeral base s := by
  unfold natural? at h
  split at h
  · cases h
  · rename_i hne
    exact ⟨by simpa using hne, (foldl_pushDigit_eq_some h).1⟩

/-- More digits behind a number shift it. -/
theorem le_of_natural?_append (hs : natural? base s = some m)
    (h : natural? base (s ++ t) = some n) : m * base ^ t.length ≤ n := by
  unfold natural? at hs h
  split at hs
  · cases hs
  split at h
  · cases h
  rw [List.foldl_append, hs] at h
  exact (foldl_pushDigit_eq_some h).2

/-- A text that begins with a digit has no sign in front. -/
theorem word?_append (h : IsNumeral base s) (t : List Char) :
    word? base (s ++ t) = (natural? base (s ++ t)).bind fun n =>
      if n < 0x100000000 then some (UInt32.ofNat n) else none := by
  obtain ⟨c, rest, rfl⟩ := List.exists_cons_of_ne_nil h.ne_nil
  have hdigit := toNat_of_digit? (h.digits c List.mem_cons_self)
  unfold word?
  split
  · rename_i hplus
    obtain rfl := (List.cons.inj hplus).1
    exact absurd hdigit.1 (by decide)
  · rfl

theorem word?_of_natural? (h : natural? base s = some n) (hn : n < 0x100000000) :
    word? base s = some (UInt32.ofNat n) := by
  have hword := word?_append (isNumeral_of_natural? h) []
  rw [List.append_nil, h, Option.bind_some, if_pos hn] at hword
  exact hword

/-- Digits that run into the next column take a number out of range. -/
theorem word?_append_eq_none (hs : natural? base s = some m)
    (hlarge : 0x100000000 ≤ m * base ^ t.length) : word? base (s ++ t) = none := by
  rw [word?_append (isNumeral_of_natural? hs)]
  cases hread : natural? base (s ++ t) with
  | none => rfl
  | some n =>
    have hle := le_of_natural?_append hs hread
    rw [Option.bind_some, if_neg (by omega)]

/-- The digits of a number, each spelled in one of its ways, behind any count of zeros. -/
theorem natural?_digits {f : Char → Char} (hbase : 1 < base)
    (hf : ∀ d < base, digit? base (f d.digitChar) = some d) (k n : Nat) :
    natural? base (List.replicate k '0' ++ (Nat.toDigits base n).map f) = some n := by
  have hdigits (n : Nat) :
      ((Nat.toDigits base n).map f).foldl (pushDigit base) (some 0) = some n := by
    induction n using Nat.strongRecOn with
    | ind n ih =>
      rw [Nat.toDigits_eq_if hbase]
      split
      · rename_i hn
        simp [pushDigit, hf n hn]
      · rename_i hn
        -- The last digit stands behind those of the quotient.
        have hquotient := ih (n / base) (Nat.div_lt_self (by omega) hbase)
        have hremainder := hf (n % base) (Nat.mod_lt _ (by omega))
        have hsum : n / base * base + n % base = n := Nat.div_add_mod' n base
        rw [List.map_append, List.foldl_append, hquotient]
        simp [pushDigit, hremainder, hsum]
  have hzeros (k : Nat) :
      (List.replicate k '0').foldl (pushDigit base) (some 0) = some 0 := by
    have hzero : digit? base '0' = some 0 := by
      have hvalue : '0'.toNat = 48 := rfl
      simp [digit?, hvalue]
      omega
    induction k with
    | zero => rfl
    | succ k ih => rw [List.replicate_succ, foldl_pushDigit_cons, hzero, Option.bind_some,
        Nat.zero_mul, ih]
  have hne : (List.replicate k '0' ++ (Nat.toDigits base n).map f).isEmpty = false := by simp
  rw [natural?, hne, List.foldl_append, hzeros, hdigits]
  rfl

theorem toList_hex (width n : Nat) : (hex width n).toList =
    List.replicate (width - (Nat.toDigits 16 n).length) '0' ++ Nat.toDigits 16 n := by
  simp [hex]

theorem toList_upperHex (width n : Nat) : (upperHex width n).toList =
    List.replicate (width - (Nat.toDigits 16 n).length) '0' ++
      (Nat.toDigits 16 n).map Char.toUpper := by
  simp [upperHex]

theorem natural?_hex (width n : Nat) : natural? 16 (hex width n).toList = some n := by
  have hdigits := natural?_digits (f := id) (by decide : 1 < 16)
    (fun d hd => digit?_digitChar hd (by decide)) (width - (Nat.toDigits 16 n).length) n
  rw [List.map_id] at hdigits
  rw [toList_hex]
  exact hdigits

theorem natural?_upperHex (width n : Nat) : natural? 16 (upperHex width n).toList = some n := by
  rw [toList_upperHex]
  exact natural?_digits (by decide) (fun d hd => digit?_toUpper_digitChar hd (by decide)) _ n

theorem natural?_toString (n : Nat) : natural? 10 (toString n).toList = some n := by
  have hdigits := natural?_digits (f := id) (by decide : 1 < 10)
    (fun d hd => digit?_digitChar hd (by decide)) 0 n
  simpa using hdigits

theorem length_toDigits_word (w : UInt32) : (Nat.toDigits 16 w.toNat).length ≤ 8 :=
  (Nat.length_toDigits_le_iff (by decide) (by decide)).mpr w.toNat_lt

theorem length_hex (w : UInt32) : (hex 8 w.toNat).toList.length = 8 := by
  have hlength := length_toDigits_word w
  rw [toList_hex, List.length_append, List.length_replicate]
  omega

theorem length_upperHex (w : UInt32) : (upperHex 8 w.toNat).toList.length = 8 := by
  have hlength := length_toDigits_word w
  rw [toList_upperHex, List.length_append, List.length_replicate, List.length_map]
  omega

theorem word?_hex (width : Nat) (w : UInt32) :
    word? 16 (hex width w.toNat).toList = some w := by
  rw [word?_of_natural? (natural?_hex width w.toNat) w.toNat_lt, UInt32.ofNat_toNat]

theorem word?_toString (hn : n < 0x100000000) :
    word? 10 (toString n).toList = some (UInt32.ofNat n) :=
  word?_of_natural? (natural?_toString n) hn

theorem exactWord?_upperHex (w : UInt32) :
    exactWord? (upperHex 8 w.toNat).toList = some w := by
  rw [exactWord?, if_pos (length_upperHex w), natural?_upperHex, Option.map_some,
    UInt32.ofNat_toNat]

end Toolchain32.Text
