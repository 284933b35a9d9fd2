import Toolchain32.Proofs.LiteralSpellings
import Toolchain32.Proofs.NameShapes
import Toolchain32.Proofs.StrippedTexts
import Toolchain32.Entries

/-!
# How arguments are spelled

The values, registers and operands of the source language as texts. Each of them is read from its
spellings and from no other text (`Value.read_eq_ok_iff`, `readRegister_eq_ok_iff`,
`Operand.read_eq_ok_iff`), except that a control register is read without its percent sign as well
(`readControlRegister_eq_ok_iff`).
-/

namespace Toolchain32

open Fallible Text

variable {c : Char} {s t inner gap : List Char} {l : Literal} {v : Value} {r : Register} {p : Place}
  {o : Operand} {d : Int16}

inductive Value.Spelling : Value → List Char → Prop
  | literal {l : Literal} {s : List Char} (spelling : l.Spelling s) (fits : l.fits = true) :
      Spelling (.literal l.value) s
  | symbol {name : String} (legal : SymbolName name) : Spelling (.symbol name) name.toList

inductive Register.IsNamed : Register → String → Prop
  | number (r : Register) : IsNamed r s!"r{r.index.val}"
  | stackPointer : IsNamed .stackPointer "sp"
  | programCounter : IsNamed .programCounter "pc"

inductive Register.Spelling (r : Register) : List Char → Prop
  | intro {name : String} {s : List Char} (named : r.IsNamed name)
      (same : s.map Char.toLower = name.toList) : Spelling r ('%' :: s)

/-- The name of a control register in either case, without the percent sign that belongs in front of
it. -/
def ControlRegister.BareSpelling (r : ControlRegister) (s : List Char) : Prop :=
  s.map Char.toLower = r.name.toList

inductive ControlRegister.Spelling (r : ControlRegister) : List Char → Prop
  | intro {s : List Char} (bare : r.BareSpelling s) : Spelling r ('%' :: s)

inductive Place.InBrackets : Place → List Char → Prop
  | plain {r : Register} {s t : List Char} (base : r.Spelling s) (padded : Padded s t) :
      InBrackets (.indirect r 0) t
  | displaced {r : Register} {l : Literal} {d : Int16} {s t before after : List Char}
      (base : r.Spelling s) (padded_base : Padded s before)
      (literal : l.Spelling t) (value : d.toInt = l.value) (fits : FitsDisplacement d)
      (padded_literal : Padded t after) :
      InBrackets (.indirect r d) (before ++ '+' :: after)

inductive Place.Spelling : Place → List Char → Prop
  | memory {v : Value} {s : List Char} (value : v.Spelling s) : Spelling (.memory v) s
  | register {r : Register} {s : List Char} (register : r.Spelling s) : Spelling (.register r) s
  | indirect {p : Place} {s : List Char} (inner : p.InBrackets s) :
      Spelling p ('[' :: (s ++ [']']))

inductive Operand.Spelling : Operand → List Char → Prop
  | immediate {v : Value} {s gap : List Char} (value : v.Spelling s) (blank : Blank gap) :
      Spelling (.immediate v) ('$' :: (gap ++ s))
  | place {p : Place} {s : List Char} (place : p.Spelling s) : Spelling (.place p) s

def isPlain (c : Char) : Bool := c.isAlphanum || c == '_' || c == '.' || c == '-'

structure Plain (s : List Char) : Prop where
  ne_nil : s ≠ []
  plain : ∀ c ∈ s, isPlain c = true

theorem plain_of_all (hne : s ≠ []) (h : s.all isPlain = true) : Plain s :=
  ⟨hne, List.all_eq_true.mp h⟩

theorem Plain.not_mem (h : Plain s) (hc : isPlain c = false) : c ∉ s := fun hmem => by
  rw [h.plain c hmem] at hc
  cases hc

theorem isBlank_of_isPlain (h : isPlain c = true) : isBlank c = false := by
  simp only [isPlain, Bool.or_eq_true, beq_iff_eq] at h
  rcases h with ((halphanum | rfl) | rfl) | rfl
  · have hrange := toNat_of_isAlphanum halphanum
    simp only [isBlank, Bool.or_eq_false_iff, Bool.and_eq_false_iff, decide_eq_false_iff_not,
      beq_eq_false_iff_ne]
    omega
  · rfl
  · rfl
  · rfl

theorem Plain.isWord (h : Plain s) : IsWord s :=
  ⟨h.ne_nil, fun c hc => isBlank_of_isPlain (h.plain c hc)⟩

theorem Plain.cons (hc : isPlain c = true) (h : Plain s) : Plain (c :: s) :=
  ⟨List.cons_ne_nil c s, List.forall_mem_cons.mpr ⟨hc, h.plain⟩⟩

theorem isPlain_toLower (c : Char) : isPlain c.toLower = isPlain c := by
  have hupper : ∀ n < 26,
      isPlain (Char.ofNat (65 + n)).toLower = isPlain (Char.ofNat (65 + n)) := by decide
  by_cases h : c.toLower = c
  · rw [h]
  · obtain ⟨n, hn, rfl⟩ := exists_upper_of_toLower_ne h
    exact hupper n hn

/-- Whether a text is plain does not depend on its case. -/
theorem plain_of_map_toLower (ht : Plain t) (h : s.map Char.toLower = t) : Plain s where
  ne_nil := by
    rintro rfl
    exact ht.ne_nil h.symm
  plain c hc := by
    rw [← isPlain_toLower]
    exact ht.plain _ (h ▸ List.mem_map_of_mem hc)

theorem plain_toDigits (n : Nat) : Plain (Nat.toDigits 10 n) where
  ne_nil := Nat.toDigits_ne_nil
  plain c hc := by
    have hdigit := Nat.isDigit_of_mem_toDigits (by decide) (by decide) hc
    simp [isPlain, Char.isAlphanum, hdigit]

theorem TableName.plain {name : String} (h : TableName name) : Plain name.toList where
  ne_nil := h.isWord.ne_nil
  plain c hc := by
    rcases h.cases_of_mem c hc with (halphanum | rfl) | rfl
    · simp [isPlain, halphanum]
    · rfl
    · rfl

theorem SymbolName.plain {name : String} (h : SymbolName name) : Plain name.toList :=
  (tableName_of_symbolName h).plain

theorem isPlain_of_mem_numeral {n : Nat} (h : natural? 16 s = some n) :
    ∀ c ∈ s, isPlain c = true := by
  intro c hc
  have hdigits : ∀ d < 16, isPlain d.digitChar = true ∧ isPlain d.digitChar.toUpper = true := by
    decide
  obtain ⟨d, hd⟩ := Option.isSome_iff_exists.mp ((isNumeral_of_natural? h).digits c hc)
  obtain ⟨hlower, hupper⟩ := hdigits d (lt_of_digit? hd)
  rcases eq_digitChar_of_digit? (by decide) hd with rfl | rfl
  · exact hlower
  · exact hupper

theorem Literal.Spelling.plain (h : l.Spelling s) : Plain s := by
  cases h with
  | hexadecimal mark digits k n mark_eq digits_eq =>
    have hdigits := isPlain_of_mem_numeral (natural?_sixteen_iff.mpr ⟨k, digits_eq⟩)
    have hmark : Plain mark.toList := by
      rcases mark_eq with rfl | rfl <;> exact plain_of_all (by decide) (by decide)
    exact ⟨List.append_ne_nil_of_left_ne_nil hmark.ne_nil _,
      List.forall_mem_append.mpr ⟨hmark.plain, hdigits⟩⟩
  | decimal n => exact plain_toDigits n
  | negative n => exact (plain_toDigits n).cons rfl

theorem Value.Spelling.plain (h : v.Spelling s) : Plain s := by
  cases h with
  | literal spelling _ => exact spelling.plain
  | symbol legal => exact legal.plain

def isMark (c : Char) : Bool := c == ',' || c == ':' || c == '#'

def Unmarked (s : List Char) : Prop := ∀ c ∈ s, isMark c = false

/-- No mark is in a class of characters that has none of the three. -/
theorem isMark_of_class {p : Char → Bool} (hcomma : p ',' = false) (hcolon : p ':' = false)
    (hhash : p '#' = false) (h : p c = true) : isMark c = false := by
  have hne {mark : Char} (hmark : p mark = false) : c ≠ mark := by
    rintro rfl
    rw [hmark] at h
    cases h
  simp only [isMark, Bool.or_eq_false_iff, beq_eq_false_iff_ne]
  exact ⟨⟨hne hcomma, hne hcolon⟩, hne hhash⟩

theorem isMark_of_isPlain (h : isPlain c = true) : isMark c = false :=
  isMark_of_class (by decide) (by decide) (by decide) h

theorem isMark_of_isBlank (h : isBlank c = true) : isMark c = false :=
  isMark_of_class (by decide) (by decide) (by decide) h

theorem isBlank_of_isMark (h : isMark c = true) : isBlank c = false := by
  rw [Bool.eq_false_iff]
  intro hblank
  rw [isMark_of_isBlank hblank] at h
  cases h

theorem Unmarked.not_mem (h : Unmarked s) (hc : isMark c = true) : c ∉ s := fun hmem => by
  rw [h c hmem] at hc
  cases hc

theorem Unmarked.append (hs : Unmarked s) (ht : Unmarked t) : Unmarked (s ++ t) :=
  List.forall_mem_append.mpr ⟨hs, ht⟩

theorem Unmarked.cons (hc : isMark c = false) (h : Unmarked s) : Unmarked (c :: s) :=
  List.forall_mem_cons.mpr ⟨hc, h⟩

theorem Plain.unmarked (h : Plain s) : Unmarked s := fun c hc => isMark_of_isPlain (h.plain c hc)

theorem Text.Blank.unmarked (h : Blank s) : Unmarked s := fun c hc => isMark_of_isBlank (h c hc)

theorem Text.Padded.unmarked (h : Padded t s) (ht : Unmarked t) : Unmarked s := by
  obtain ⟨hbefore, hafter⟩ := h
  exact hbefore.unmarked.append (ht.append hafter.unmarked)

structure IsArgument (s : List Char) : Prop where
  ne_nil : s ≠ []
  stripped : trim s = s
  unmarked : Unmarked s

theorem Plain.isArgument (h : Plain s) : IsArgument s := ⟨h.ne_nil, h.isWord.trim, h.unmarked⟩

theorem Plain.isArgument_percent (h : Plain s) : IsArgument ('%' :: s) := by
  have hword : IsWord ('%' :: s) :=
    ⟨List.cons_ne_nil _ _, List.forall_mem_cons.mpr ⟨rfl, h.isWord.solid⟩⟩
  exact ⟨hword.ne_nil, hword.trim, h.unmarked.cons rfl⟩

/-- A literal begins like no name. -/
theorem Literal.Spelling.isSymbolName (h : l.Spelling s) : isSymbolName s = false := by
  cases h with
  | hexadecimal mark digits k n mark_eq digits_eq =>
    rcases mark_eq with rfl | rfl <;> rfl
  | decimal n =>
    cases hdigits : Nat.toDigits 10 n with
    | nil => exact absurd hdigits Nat.toDigits_ne_nil
    | cons c rest =>
      have hletter : ∀ d < 10, (d.digitChar.isAlpha || d.digitChar == '_') = false := by decide
      have hnumeral := isNumeral_of_natural? (natural?_ten_iff.mpr ⟨0, hdigits.symm⟩)
      obtain ⟨d, hd⟩ := Option.isSome_iff_exists.mp (hnumeral.digits c List.mem_cons_self)
      rw [Toolchain32.isSymbolName, eq_digitChar hd, hletter d (lt_of_digit? hd), Bool.false_and]
  | negative n => rfl

theorem Value.read_eq_ok_iff : Value.read s = .ok v ↔ v.Spelling s := by
  unfold Value.read
  constructor
  · intro h
    split at h
    · cases h
    · rename_i n hliteral
      cases h
      obtain ⟨l, hspelling, hfits, rfl⟩ := readLiteral_eq_some_iff.mp hliteral
      exact .literal hspelling hfits
    · split at h
      · rename_i hname
        cases h
        have hsymbol : SymbolName (String.ofList s) := by rwa [SymbolName, String.toList_ofList]
        have hspelling := Value.Spelling.symbol hsymbol
        rwa [String.toList_ofList] at hspelling
      · cases h
  · intro h
    cases h with
    | literal spelling fits => rw [readLiteral_eq_some_iff.mpr ⟨_, spelling, fits, rfl⟩]
    | symbol legal =>
      rename_i name
      have hliteral : readLiteral name.toList = .ok none := by
        refine readLiteral_eq_none_iff.mpr fun l hl => ?_
        have hname := hl.isSymbolName
        rw [legal] at hname
        cases hname
      rw [hliteral]
      simp only [show isSymbolName name.toList = true from legal, if_true, String.ofList_toList]

theorem bareSpelling_cons (s : List Char) :
    bareSpelling ('%' :: s) = String.ofList (s.map Char.toLower) := by
  rw [bareSpelling, after?_eq_some_iff.mpr (show '%' :: s = "%".toList ++ s from rfl),
    Option.getD_some]

theorem Register.isNamed_iff_mem {name : String} : r.IsNamed name ↔ (name, r) ∈ spellings := by
  simp only [spellings, List.mem_append, List.mem_map, all]
  constructor
  · rintro (r | - | -)
    · exact .inl ⟨r, ⟨r.index, List.mem_finRange r.index, rfl⟩, rfl⟩
    · exact .inr (by simp)
    · exact .inr (by simp)
  · rintro (⟨r, -, ⟨⟩⟩ | h)
    · exact .number r
    · simp only [List.mem_cons, Prod.mk.injEq, List.not_mem_nil, or_false] at h
      rcases h with ⟨rfl, rfl⟩ | ⟨rfl, rfl⟩
      · exact .stackPointer
      · exact .programCounter

theorem Register.nodup_spellings : (spellings.map (·.1)).Nodup := by decide

theorem Register.read?_eq_some_iff :
    Register.read? ('%' :: s) = some r ↔ r.Spelling ('%' :: s) := by
  rw [Register.read?, bareSpelling_cons, lookup_eq_some_iff_mem nodup_spellings, ← isNamed_iff_mem]
  constructor
  · exact fun h => .intro h (String.toList_ofList ..).symm
  · rintro ⟨named, same⟩
    rwa [same, String.ofList_toList]

theorem readRegister_eq_ok_iff : readRegister s = .ok r ↔ r.Spelling s := by
  unfold readRegister
  constructor
  · intro h
    split at h
    · rename_i hhead
      obtain ⟨rest, rfl⟩ := List.head?_eq_some_iff.mp hhead
      split at h
      · rename_i hread
        cases h
        exact Register.read?_eq_some_iff.mp hread
      · split at h <;> cases h
    · cases h
  · intro h
    have hread := h
    obtain ⟨named, same⟩ := h
    rw [if_pos (List.head?_cons ..), Register.read?_eq_some_iff.mpr hread]

theorem ControlRegister.read?_eq_some_iff {control : ControlRegister} :
    ControlRegister.read? s = some control ↔ (bareSpelling s).toList = control.name.toList := by
  have hnodup : (spellings.map (·.1)).Nodup := by decide
  have hall (r : ControlRegister) : r ∈ all := by cases r <;> decide
  rw [ControlRegister.read?, lookup_eq_some_iff_mem hnodup, spellings, List.mem_map,
    String.toList_inj]
  constructor
  · rintro ⟨r, -, h⟩
    obtain ⟨hname, rfl⟩ := Prod.mk.inj h
    exact hname.symm
  · exact fun h => ⟨control, hall control, by rw [h]⟩

theorem ControlRegister.BareSpelling.plain {control : ControlRegister}
    (h : control.BareSpelling s) : Plain s := by
  refine plain_of_map_toLower ?_ h
  cases control <;> exact plain_of_all (by decide) (by decide)

theorem ControlRegister.Spelling.not_bare {control : ControlRegister} (h : control.Spelling s) :
    ¬ control.BareSpelling s := by
  obtain ⟨bare⟩ := h
  exact fun h => h.plain.not_mem (by decide) List.mem_cons_self

/-- A control register is read with or without its percent sign. -/
theorem readControlRegister_eq_ok_iff {control : ControlRegister} :
    readControlRegister s = .ok control ↔ control.Spelling s ∨ control.BareSpelling s := by
  have hread : readControlRegister s = .ok control ↔ ControlRegister.read? s = some control := by
    unfold readControlRegister
    cases ControlRegister.read? s <;> simp
  rw [hread, ControlRegister.read?_eq_some_iff]
  constructor
  · intro h
    cases hafter : after? "%" s with
    | some rest =>
      obtain rfl := after?_eq_some_iff.mp hafter
      change (bareSpelling ('%' :: rest)).toList = _ at h
      rw [bareSpelling_cons, String.toList_ofList] at h
      exact .inl (.intro h)
    | none =>
      rw [bareSpelling, hafter, Option.getD_none, String.toList_ofList] at h
      exact .inr h
  · rintro (spelled | bare)
    · cases spelled with
      | intro bare => rwa [bareSpelling_cons, String.toList_ofList]
    · have hafter : after? "%" s = none := by
        rw [Option.eq_none_iff_forall_ne_some]
        intro rest h
        have hmem : '%' ∈ s := after?_eq_some_iff.mp h ▸ List.mem_cons_self
        exact bare.plain.not_mem (by decide) hmem
      rwa [bareSpelling, hafter, Option.getD_none, String.toList_ofList]

theorem Register.IsNamed.plain {name : String} (h : r.IsNamed name) : Plain name.toList := by
  cases h with
  | number r =>
    have hdigits : s!"r{r.index.val}".toList = 'r' :: Nat.toDigits 10 r.index.val := by
      simp only [String.toList_append, Nat.toString_eq_repr, Nat.toList_repr]
      rfl
    rw [hdigits]
    exact (plain_toDigits _).cons rfl
  | stackPointer => exact plain_of_all (by decide) (by decide)
  | programCounter => exact plain_of_all (by decide) (by decide)

theorem Register.Spelling.exists_cons (h : r.Spelling s) :
    ∃ rest, Plain rest ∧ s = '%' :: rest := by
  cases h with
  | intro named same => exact ⟨_, plain_of_map_toLower named.plain same, rfl⟩

theorem Register.Spelling.isArgument (h : r.Spelling s) : IsArgument s := by
  obtain ⟨rest, hrest, rfl⟩ := h.exists_cons
  exact hrest.isArgument_percent

theorem Register.Spelling.not_mem (h : r.Spelling s) (hc : isPlain c = false) (hne : c ≠ '%') :
    c ∉ s := by
  obtain ⟨rest, hrest, rfl⟩ := h.exists_cons
  exact List.not_mem_cons_of_ne_of_not_mem hne (hrest.not_mem hc)

theorem Register.Spelling.plus_not_mem (h : r.Spelling s) (padded : Padded s t) : '+' ∉ t :=
  padded.not_mem (by decide) (h.not_mem (by decide) (by decide))

theorem Register.Spelling.read_trim (h : r.Spelling s) (padded : Padded s t) :
    readRegister (trim t) = .ok r := by
  rw [padded.trim_eq, h.isArgument.stripped]
  exact readRegister_eq_ok_iff.mpr h

theorem fits_of_displacement (hd : d.toInt = l.value) (hfits : FitsDisplacement d) :
    l.fits = true := by
  obtain ⟨hlow, hhigh⟩ := hfits
  rw [hd] at hlow hhigh
  cases l with
  | hexadecimal n =>
    change (n : Int) ≤ 2047 at hhigh
    exact decide_eq_true (by omega)
  | decimal i =>
    change -2048 ≤ i at hlow
    change i ≤ 2047 at hhigh
    simp only [Literal.fits, Bool.and_eq_true, decide_eq_true_eq]
    omega

theorem readDisplacement_eq_ok_iff : readDisplacement s = .ok d ↔
    ∃ l : Literal, l.Spelling s ∧ d.toInt = l.value ∧ FitsDisplacement d := by
  constructor
  · intro h
    obtain ⟨n, hvalue, hn, hd⟩ := Place.exists_of_readDisplacement h
    have hspelling := Value.read_eq_ok_iff.mp hvalue
    cases hspelling with
    | literal spelling fits => exact ⟨_, spelling, hd, Place.fits_of_readDisplacement h⟩
  · rintro ⟨l, spelling, hd, hfits⟩
    have hvalue := Value.read_eq_ok_iff.mpr (.literal spelling (fits_of_displacement hd hfits))
    have hrange : -2048 ≤ l.value ∧ l.value ≤ 2047 := hd ▸ hfits
    rw [readDisplacement, hvalue]
    change (if _ then _ else _) = _
    rw [if_pos hrange, ← hd, Int16.ofInt_toInt]
    rfl

theorem readIndirect_eq_ok_iff : readIndirect inner = .ok p ↔ p.InBrackets inner := by
  unfold readIndirect
  constructor
  · intro h
    split at h
    · obtain ⟨r, hr, rfl⟩ := map_eq_ok.mp h
      exact .plain (readRegister_eq_ok_iff.mp hr) (padded_trim inner)
    · rename_i before after hcut
      obtain ⟨r, hr, h⟩ := bind_eq_ok.mp h
      obtain ⟨d, hd, h⟩ := bind_eq_ok.mp h
      cases h
      obtain ⟨-, rfl⟩ := cutAt?_char_eq_some_iff.mp hcut
      obtain ⟨l, spelling, hvalue, hfits⟩ := readDisplacement_eq_ok_iff.mp hd
      exact .displaced (readRegister_eq_ok_iff.mp hr) (padded_trim before) spelling hvalue hfits
        (padded_trim after)
  · intro h
    cases h with
    | plain base padded =>
      rw [cutAt?_of_not_mem (base.plus_not_mem padded)]
      exact map_eq_ok.mpr ⟨_, base.read_trim padded, rfl⟩
    | displaced base padded_base literal value fits padded_literal =>
      have hd := readDisplacement_eq_ok_iff.mpr ⟨_, literal, value, fits⟩
      rw [← literal.plain.isArgument.stripped, ← padded_literal.trim_eq] at hd
      rw [cutAt?_char (base.plus_not_mem padded_base)]
      exact bind_eq_ok.mpr ⟨_, base.read_trim padded_base, bind_eq_ok.mpr ⟨_, hd, rfl⟩⟩

theorem bracketed?_eq_some_iff : bracketed? s = some inner ↔ s = '[' :: (inner ++ [']']) := by
  unfold bracketed?
  constructor
  · intro h
    split at h
    · rename_i rest hafter
      obtain rfl := after?_eq_some_iff.mp hafter
      rw [Option.ite_none_right_eq_some] at h
      obtain ⟨hlast, h⟩ := h
      cases h
      rw [List.dropLast_append_getLast? _ hlast]
      rfl
    · cases h
  · rintro rfl
    have hafter : after? "[" ('[' :: (inner ++ [']'])) = some (inner ++ [']']) :=
      after?_eq_some_iff.mpr rfl
    rw [hafter]
    simp

theorem Place.read_eq_ok_iff : Place.read s = .ok p ↔ p.Spelling s := by
  unfold Place.read
  constructor
  · intro h
    split at h
    · obtain ⟨r, hr, rfl⟩ := map_eq_ok.mp h
      exact .register (readRegister_eq_ok_iff.mp hr)
    · split at h
      · rename_i hinner
        obtain rfl := bracketed?_eq_some_iff.mp hinner
        exact .indirect (readIndirect_eq_ok_iff.mp h)
      · obtain ⟨v, hv, rfl⟩ := map_eq_ok.mp h
        exact .memory (Value.read_eq_ok_iff.mp hv)
  · intro h
    cases h with
    | memory value =>
      have hpercent : s.head? ≠ some '%' := fun hhead =>
        value.plain.not_mem (by decide) (List.mem_of_head? hhead)
      have hbracket : bracketed? s = none := by
        rw [Option.eq_none_iff_forall_ne_some]
        intro inner h
        have hmem : '[' ∈ s := bracketed?_eq_some_iff.mp h ▸ List.mem_cons_self
        exact value.plain.not_mem (by decide) hmem
      rw [if_neg hpercent, hbracket]
      exact map_eq_ok.mpr ⟨_, Value.read_eq_ok_iff.mpr value, rfl⟩
    | register register =>
      obtain ⟨rest, -, rfl⟩ := register.exists_cons
      rw [if_pos (List.head?_cons ..)]
      exact map_eq_ok.mpr ⟨_, readRegister_eq_ok_iff.mpr register, rfl⟩
    | indirect inner =>
      rw [if_neg (by simp), bracketed?_eq_some_iff.mpr rfl]
      exact readIndirect_eq_ok_iff.mpr inner

/-- No place begins with the mark of an immediate operand. -/
theorem Place.Spelling.head?_ne (h : p.Spelling s) : s.head? ≠ some '$' := by
  cases h with
  | memory value =>
    exact fun hhead => value.plain.not_mem (by decide) (List.mem_of_head? hhead)
  | register register =>
    obtain ⟨rest, -, rfl⟩ := register.exists_cons
    simp
  | indirect inner => simp

theorem Value.Spelling.read_trim (h : v.Spelling s) (hgap : Blank gap) :
    Value.read (trim (gap ++ s)) = .ok v := by
  rw [trim_append_left hgap, h.plain.isArgument.stripped]
  exact Value.read_eq_ok_iff.mpr h

theorem Operand.read_eq_ok_iff (hs : trim s = s) : Operand.read s = .ok o ↔ o.Spelling s := by
  unfold Operand.read
  constructor
  · intro h
    split at h
    · rename_i text hafter
      obtain rfl : s = '$' :: text := after?_eq_some_iff.mp hafter
      obtain ⟨v, hv, rfl⟩ := map_eq_ok.mp h
      obtain ⟨gap, hgap, htext⟩ := exists_gap_of_trim_cons (by decide) hs
      have hspelling := Operand.Spelling.immediate (Value.read_eq_ok_iff.mp hv) hgap
      rwa [← htext] at hspelling
    · obtain ⟨p, hp, rfl⟩ := map_eq_ok.mp h
      exact .place (Place.read_eq_ok_iff.mp hp)
  · intro h
    cases h with
    | immediate value blank =>
      rename_i v text gap
      have hafter : after? "$" ('$' :: (gap ++ text)) = some (gap ++ text) :=
        after?_eq_some_iff.mpr rfl
      rw [hafter]
      exact map_eq_ok.mpr ⟨_, value.read_trim blank, rfl⟩
    | place place =>
      have hafter : after? "$" s = none := by
        rw [Option.eq_none_iff_forall_ne_some]
        intro text h
        exact place.head?_ne (after?_eq_some_iff.mp h ▸ List.head?_cons ..)
      rw [hafter]
      exact map_eq_ok.mpr ⟨_, Place.read_eq_ok_iff.mpr place, rfl⟩

theorem ControlRegister.Spelling.isArgument {control : ControlRegister}
    (h : control.Spelling s) : IsArgument s := by
  obtain ⟨bare⟩ := h
  exact bare.plain.isArgument_percent

theorem Place.InBrackets.unmarked (h : p.InBrackets s) : Unmarked s := by
  cases h with
  | plain base padded => exact padded.unmarked base.isArgument.unmarked
  | displaced base padded_base literal value fits padded_literal =>
    exact (padded_base.unmarked base.isArgument.unmarked).append
      ((padded_literal.unmarked literal.plain.unmarked).cons rfl)

theorem Place.Spelling.isArgument (h : p.Spelling s) : IsArgument s := by
  cases h with
  | memory value => exact value.plain.isArgument
  | register register => exact register.isArgument
  | indirect inner =>
    exact ⟨List.cons_ne_nil _ _, trim_between (s := ['[']) (t := [']']) (by decide) (by decide) _,
      (inner.unmarked.append (by simp [Unmarked, isMark])).cons rfl⟩

theorem Operand.Spelling.isArgument (h : o.Spelling s) : IsArgument s := by
  cases h with
  | immediate value blank =>
    exact ⟨List.cons_ne_nil _ _, trim_between (s := ['$']) (by decide) value.plain.isWord _,
      (blank.unmarked.append value.plain.unmarked).cons rfl⟩
  | place place => exact place.isArgument

theorem Literal.exists_spelling {n : Int} (hlow : -0x80000000 ≤ n) (hhigh : n < 0x100000000) :
    ∃ (l : Literal) (s : List Char), l.Spelling s ∧ l.fits = true ∧ l.value = n := by
  cases n with
  | ofNat m =>
    obtain ⟨k, hk⟩ := natural?_sixteen_iff.mp (natural?_hex 0 m)
    have hm : (m : Int) < 0x100000000 := hhigh
    exact ⟨.hexadecimal m, _, .hexadecimal "0x" _ k m (.inl rfl) hk, decide_eq_true (by omega), rfl⟩
  | negSucc m =>
    refine ⟨.decimal (-(m + 1 : Nat)), _, .negative (m + 1), ?_, by simp only [value]; omega⟩
    simp only [fits, Bool.and_eq_true, decide_eq_true_eq]
    omega

theorem Value.exists_spelling (h : v.Legal) : ∃ s, v.Spelling s := by
  cases v with
  | literal n =>
    obtain ⟨l, s, spelling, fits, rfl⟩ := Literal.exists_spelling h.1 h.2
    exact ⟨s, .literal spelling fits⟩
  | symbol name => exact ⟨name.toList, .symbol h⟩

theorem Register.exists_spelling (r : Register) : ∃ s, r.Spelling s := by
  have hlower : ∀ i : Fin 16, s!"r{i.val}".toList.map Char.toLower = s!"r{i.val}".toList := by
    decide
  exact ⟨_, .intro (.number r) (hlower r.index)⟩

theorem ControlRegister.exists_spelling (control : ControlRegister) : ∃ s, control.Spelling s :=
  ⟨_, .intro (s := control.name.toList) (by cases control <;> rfl)⟩

theorem Place.exists_spelling (h : p.Legal) : ∃ s, p.Spelling s := by
  cases p with
  | memory v =>
    obtain ⟨s, hs⟩ := Value.exists_spelling h
    exact ⟨s, .memory hs⟩
  | register r =>
    obtain ⟨s, hs⟩ := r.exists_spelling
    exact ⟨s, .register hs⟩
  | indirect base d =>
    have hfits : FitsDisplacement d := h
    have hlow := hfits.1
    have hhigh := hfits.2
    obtain ⟨s, hs⟩ := base.exists_spelling
    obtain ⟨l, t, spelling, -, hvalue⟩ := Literal.exists_spelling (n := d.toInt) (by omega)
      (by omega)
    exact ⟨_, .indirect (.displaced hs (.refl s) spelling hvalue.symm hfits (.refl t))⟩

theorem Operand.exists_spelling (h : o.Legal) : ∃ s, o.Spelling s := by
  cases o with
  | immediate v =>
    obtain ⟨s, hs⟩ := Value.exists_spelling h
    exact ⟨_, .immediate hs .nil⟩
  | place p =>
    obtain ⟨s, hs⟩ := Place.exists_spelling h
    exact ⟨s, .place hs⟩

end Toolchain32
