import Toolchain32.Link.Placement
import Toolchain32.Proofs.ExactLiterals
import Toolchain32.Proofs.StrippedTexts

/-!
# Placements as they are spelled

A text is read as a placement exactly if it is a name, the separator and an address with white space
around it. The address is one to eight hexadecimal digits behind an optional mark, or up to seven
with a plus sign in front. Every other text is refused (`Placement.read_exact`).
-/

namespace Toolchain32

namespace Text

variable {base n : Nat} {c : Char} {s digits sign : List Char} {a : Word}

theorem Denotes.isNumeral (hbase : base ≤ 16) (h : Denotes base s n) : IsNumeral base s :=
  isNumeral_of_natural? ((natural?_eq_some_iff_denotes hbase).mpr h)

def IsSign (sign : List Char) : Prop := sign = [] ∨ sign = ['+']

theorem word?_plus (s : List Char) : word? base ('+' :: s) =
    (natural? base s).bind fun n => if n < 2 ^ 32 then some (UInt32.ofNat n) else none := rfl

theorem exists_sign (base : Nat) (s : List Char) : ∃ sign digits, IsSign sign ∧ s = sign ++ digits ∧
    word? base s =
      (natural? base digits).bind fun n => if n < 2 ^ 32 then some (UInt32.ofNat n) else none := by
  unfold word?
  split
  · exact ⟨['+'], _, .inr rfl, rfl, rfl⟩
  · exact ⟨[], s, .inl rfl, rfl, rfl⟩

/-- A word is read exactly if it is spelled by digits, with or without a plus sign. -/
theorem word?_eq_some_iff (hbase : base ≤ 16) : word? base s = some a ↔
    ∃ sign digits, IsSign sign ∧ s = sign ++ digits ∧ Denotes base digits a.toNat := by
  constructor
  · intro h
    obtain ⟨sign, digits, hsign, hs, hword⟩ := exists_sign base s
    obtain ⟨n, hn, hrange⟩ := Option.bind_eq_some_iff.mp (hword.symm.trans h)
    obtain ⟨hlt, ha⟩ := Option.ite_none_right_eq_some.mp hrange
    have hvalue : a.toNat = n := by
      rw [← Option.some.inj ha]
      exact UInt32.toNat_ofNat_of_lt' hlt
    exact ⟨sign, digits, hsign, hs, hvalue ▸ (natural?_eq_some_iff_denotes hbase).mp hn⟩
  · rintro ⟨sign, digits, hsign, rfl, hdigits⟩
    have hread := (natural?_eq_some_iff_denotes hbase).mpr hdigits
    have hlt : a.toNat < 2 ^ 32 := a.toNat_lt
    rcases hsign with rfl | rfl
    · rw [List.nil_append, word?_of_natural? hread hlt, UInt32.ofNat_toNat]
    · rw [List.singleton_append, word?_plus, hread, Option.bind_some, if_pos hlt,
        UInt32.ofNat_toNat]

end Text

namespace Placement

open Text

variable {c : Char} {s digits mark sign : List Char} {a : Word} {p : Placement}

def IsMark (mark : List Char) : Prop := mark = [] ∨ mark = ['0', 'x'] ∨ mark = ['0', 'X']

theorem addressDigits_eq (s : List Char) : addressDigits s = (Literal.hexDigits? s).getD s := by
  unfold addressDigits Literal.hexDigits?
  cases after? "0x" s <;> rfl

theorem exists_mark (s : List Char) : ∃ mark, IsMark mark ∧ s = mark ++ addressDigits s := by
  rw [addressDigits_eq]
  cases h : Literal.hexDigits? s with
  | none => exact ⟨[], .inl rfl, rfl⟩
  | some digits =>
    obtain ⟨mark, rfl | rfl, hs⟩ := Literal.hexDigits?_eq_some_iff.mp h
    · exact ⟨['0', 'x'], .inr (.inl rfl), hs⟩
    · exact ⟨['0', 'X'], .inr (.inr rfl), hs⟩

/-- Neither a sign nor a digit is the letter of a mark. -/
theorem letter_not_mem (hsign : IsSign sign) (hdigits : IsNumeral 16 digits)
    (hc : c = 'x' ∨ c = 'X') : c ∉ sign ++ digits := by
  intro hmem
  rcases List.mem_append.mp hmem with hmem | hmem
  · rcases hsign with rfl | rfl
    · cases hmem
    · obtain rfl := List.mem_singleton.mp hmem
      revert hc
      decide
  · have hdigit := hdigits.digits c hmem
    rcases hc with rfl | rfl <;> cases hdigit

theorem addressDigits_append (hmark : IsMark mark) (hsign : IsSign sign)
    (hdigits : IsNumeral 16 digits) :
    addressDigits (mark ++ (sign ++ digits)) = sign ++ digits := by
  rw [addressDigits_eq]
  rcases hmark with rfl | rfl | rfl
  · have hnone : Literal.hexDigits? (sign ++ digits) = none := by
      rw [Option.eq_none_iff_forall_ne_some]
      intro rest h
      obtain ⟨mark, hmark, hs⟩ := Literal.hexDigits?_eq_some_iff.mp h
      rcases hmark with rfl | rfl
      · exact letter_not_mem hsign hdigits (.inl rfl) (by simp [hs])
      · exact letter_not_mem hsign hdigits (.inr rfl) (by simp [hs])
    rw [List.nil_append, hnone]
    rfl
  · rfl
  · rfl

theorem isWord_address (hmark : IsMark mark) (hsign : IsSign sign)
    (hdigits : IsNumeral 16 digits) : IsWord (mark ++ (sign ++ digits)) where
  ne_nil := by simp [hdigits.ne_nil]
  solid := by
    have hmark : IsSolid mark := by rcases hmark with rfl | rfl | rfl <;> decide
    have hsign : IsSolid sign := by rcases hsign with rfl | rfl <;> decide
    have hdigits : IsSolid digits := hdigits.isWord.solid
    exact List.forall_mem_append.mpr ⟨hmark, List.forall_mem_append.mpr ⟨hsign, hdigits⟩⟩

/-- An address is an optional mark and up to eight characters, which are digits but for a sign. -/
theorem readAddress?_eq_some_iff : readAddress? s = some a ↔ ∃ mark sign digits,
    IsMark mark ∧ IsSign sign ∧ s = mark ++ (sign ++ digits) ∧
      (sign ++ digits).length ≤ 8 ∧ Denotes 16 digits a.toNat := by
  unfold readAddress?
  rw [Option.ite_none_right_eq_some, word?_eq_some_iff (by decide)]
  constructor
  · rintro ⟨hlength, sign, digits, hsign, hs, hdigits⟩
    obtain ⟨mark, hmark, hsplit⟩ := exists_mark s
    exact ⟨mark, sign, digits, hmark, hsign, hs ▸ hsplit, hs ▸ hlength, hdigits⟩
  · rintro ⟨mark, sign, digits, hmark, hsign, rfl, hlength, hdigits⟩
    rw [addressDigits_append hmark hsign (hdigits.isNumeral (by decide))]
    exact ⟨hlength, sign, digits, hsign, rfl, hdigits⟩

/-- The text is the name, the separator and the address, with the sign before the digits. -/
inductive Spelled (p : Placement) (sign : List Char) : List Char → Prop
  | intro {mark digits address : List Char} (named : p.sectionName ≠ "")
      (free : '@' ∉ p.sectionName.toList) (marked : IsMark mark)
      (short : sign.length + digits.length ≤ 8) (denotes : Denotes 16 digits p.address.toNat)
      (padded : Padded (mark ++ (sign ++ digits)) address) :
      Spelled p sign (p.sectionName.toList ++ '@' :: address)

theorem read?_eq_some_iff : read? s = some p ↔ ∃ sign, IsSign sign ∧ p.Spelled sign s := by
  constructor
  · intro h
    unfold read? at h
    split at h
    · cases h
    rename_i name address hcut
    obtain ⟨hfree, rfl⟩ := cutAt?_char_eq_some_iff.mp hcut
    split at h
    · cases h
    rename_i hnamed
    obtain ⟨a, ha, rfl⟩ := Option.map_eq_some_iff.mp h
    obtain ⟨mark, sign, digits, hmark, hsign, htrim, hlength, hdigits⟩ :=
      readAddress?_eq_some_iff.mp ha
    have hname : (String.ofList name).toList = name := String.toList_ofList
    have hspelled : Spelled ⟨String.ofList name, a⟩ sign
        ((String.ofList name).toList ++ '@' :: address) :=
      .intro (by simpa using hnamed) (hname.symm ▸ hfree) hmark (by simpa using hlength) hdigits
        (htrim ▸ padded_trim address)
    rw [hname] at hspelled
    exact ⟨sign, hsign, hspelled⟩
  · rintro ⟨sign, hsign, hs⟩
    cases hs with
    | @intro mark digits address named free marked short denotes padded =>
      have hword := isWord_address marked hsign (denotes.isNumeral (by decide))
      have haddress : readAddress? (trim address) = some p.address :=
        readAddress?_eq_some_iff.mpr ⟨mark, sign, digits, marked, hsign,
          (trim_eq_iff hword.trim).mpr padded, by simpa using short, denotes⟩
      have hnamed : p.sectionName.toList.isEmpty = false := by simpa using named
      rw [read?, cutAt?_char free]
      simp [hnamed, haddress]

/-- Every text is a placement in one of its spellings, or is refused. -/
theorem read_exact (text : String) :
    (∀ p, read text = .ok p ↔ ∃ sign, IsSign sign ∧ p.Spelled sign text.toList) ∧
    (∀ e, read text = .error e ↔ e = .invalidPlacement text ∧
      ¬ ∃ p sign, IsSign sign ∧ Spelled p sign text.toList) := by
  simp only [← read?_eq_some_iff]
  unfold read
  cases read? text.toList with
  | none => simp [eq_comm]
  | some p => simp

/-- A sign is taken for a digit. -/
example : read? "text@+1F".toList = some ⟨"text", 0x1F⟩ := by decide

end Placement

end Toolchain32
