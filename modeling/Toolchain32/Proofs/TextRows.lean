import Mathlib.Data.List.TakeWhile
import Toolchain32.Proofs.Numerals
import Toolchain32.Text.Column
import Toolchain32.Text.Split

/-!
# Lines and their words

Lines that are joined are read as the same lines (`lines_join`), and cells that stand apart from
each other as the same words (`words_cell`). Stripping a line of white space does not change its
words (`words_trim`).
-/

namespace Toolchain32.Text

variable {c : Char} {s t gap rest : List Char}

def IsLine (s : List Char) : Prop := ∀ c ∈ s, c = ' ' ∨ isBlank c = false

instance : DecidablePred IsLine := fun s =>
  decidable_of_iff ((s.all fun c => c == ' ' || !isBlank c) = true) (by simp [IsLine])

theorem IsLine.not_mem (h : IsLine s) (hblank : isBlank c = true) (hc : c ≠ ' ') : c ∉ s := by
  intro hmem
  rcases h c hmem with hspace | hnot
  · exact hc hspace
  · rw [hblank] at hnot
    cases hnot

theorem separate_append_cons {separator : Char} (h : separator ∉ s) (rest : List Char) :
    separate separator (s ++ separator :: rest) = s :: separate separator rest := by
  induction s with
  | nil => simp [separate, pushPieceChar]
  | cons c s ih =>
    have hc : c ≠ separator := Ne.symm (List.ne_of_not_mem_cons h)
    have hrest := List.cons.inj (ih (List.not_mem_of_not_mem_cons h))
    simp only [separate, List.cons_append, List.foldr_cons, pushPieceChar, hc, if_false]
    exact congrArg₂ List.cons (congrArg (c :: ·) hrest.1) hrest.2

theorem lines_append_cons (h : IsLine s) (rest : List Char) :
    lines (s ++ '\n' :: rest) = s :: lines rest := by
  have hreturn : s.getLast? ≠ some '\r' := fun hlast =>
    h.not_mem (by decide) (by decide) (List.mem_of_getLast? hlast)
  rw [lines, separate_append_cons (h.not_mem (by decide) (by decide))]
  change dropReturn s :: _ = _
  rw [dropReturn, if_neg hreturn]
  rfl

/-- The lines of a text that was written line by line. -/
theorem lines_join {ls : List String} (h : ∀ l ∈ ls, IsLine l.toList) :
    lines (String.join (ls.map line)).toList = ls.map String.toList := by
  rw [String.toList_join, List.flatMap_map]
  induction ls with
  | nil => rfl
  | cons l rest ih =>
    have hline : (line l).toList = l.toList ++ ['\n'] := by simp [line]
    rw [List.flatMap_cons, hline, List.append_assoc, List.singleton_append,
      lines_append_cons (h l List.mem_cons_self), List.map_cons,
      ih fun l hl => h l (List.mem_cons_of_mem _ hl)]

theorem cutAt?_append_cons {p : Char → Bool} (hs : ∀ c ∈ s, p c = false) (hc : p c = true)
    (rest : List Char) : cutAt? p (s ++ c :: rest) = some (s, rest) := by
  have hbefore : ∀ d ∈ s, (!p d) = true := fun d hd => by rw [hs d hd]; rfl
  rw [cutAt?, List.dropWhile_append_of_pos hbefore, List.takeWhile_append_of_pos hbefore,
    List.dropWhile_cons, List.takeWhile_cons, hc]
  simp

def IsSolid (s : List Char) : Prop := ∀ c ∈ s, isBlank c = false

instance : DecidablePred IsSolid := fun s =>
  decidable_of_iff ((s.all fun c => !isBlank c) = true) (by simp [IsSolid])

theorem IsSolid.isLine (h : IsSolid s) : IsLine s := fun c hc => .inr (h c hc)

structure IsWord (s : List Char) : Prop where
  ne_nil : s ≠ []
  solid : IsSolid s

instance : DecidablePred IsWord := fun s =>
  decidable_of_iff (s ≠ [] ∧ IsSolid s)
    ⟨fun h => ⟨h.1, h.2⟩, fun h => ⟨h.ne_nil, h.solid⟩⟩

theorem IsWord.isLine (h : IsWord s) : IsLine s := h.solid.isLine

theorem IsNumeral.isWord {base : Nat} (h : IsNumeral base s) : IsWord s :=
  ⟨h.ne_nil, fun c hc => isBlank_of_digit? (h.digits c hc)⟩

structure IsGap (s : List Char) : Prop where
  ne_nil : s ≠ []
  blank : ∀ c ∈ s, isBlank c = true

theorem words_eq (s : List Char) : words s =
    if (s.foldr pushWordChar ([], [])).1.isEmpty then (s.foldr pushWordChar ([], [])).2
    else (s.foldr pushWordChar ([], [])).1 :: (s.foldr pushWordChar ([], [])).2 := rfl

/-- The words behind an open one do not matter to it. -/
theorem foldr_pushWordChar (s : List Char) (ws : List (List Char)) :
    s.foldr pushWordChar ([], ws) =
      ((s.foldr pushWordChar ([], [])).1, (s.foldr pushWordChar ([], [])).2 ++ ws) := by
  induction s with
  | nil => rfl
  | cons c s ih =>
    rw [List.foldr_cons, List.foldr_cons, ih]
    unfold pushWordChar
    split
    · split <;> rfl
    · rfl

/-- White space ends a word. -/
theorem words_append_cons (hc : isBlank c = true) (s rest : List Char) :
    words (s ++ c :: rest) = words s ++ words rest := by
  have hopen : pushWordChar c (rest.foldr pushWordChar ([], [])) = ([], words rest) := by
    simp [pushWordChar, hc, words_eq]
  rw [words_eq, List.foldr_append, List.foldr_cons, hopen, foldr_pushWordChar, words_eq s]
  split <;> rfl

theorem words_cons (hc : isBlank c = true) (rest : List Char) : words (c :: rest) = words rest :=
  words_append_cons hc [] rest

theorem words_append_gap (hgap : IsGap gap) (s rest : List Char) :
    words (s ++ (gap ++ rest)) = words s ++ words rest := by
  obtain ⟨hne, hblank⟩ := hgap
  induction gap generalizing s with
  | nil => exact absurd rfl hne
  | cons c gap ih =>
    rw [List.cons_append, words_append_cons (hblank c List.mem_cons_self)]
    cases gap with
    | nil => rfl
    | cons d gap =>
      have hrest := ih [] (List.cons_ne_nil d gap) fun e he => hblank e (List.mem_cons_of_mem _ he)
      exact congrArg (words s ++ ·) hrest

theorem words_word (h : IsWord s) : words s = [s] := by
  have hfoldr : s.foldr pushWordChar ([], []) = (s, []) := by
    have hsolid := h.solid
    clear h
    induction s with
    | nil => rfl
    | cons c s ih =>
      rw [List.foldr_cons, ih fun d hd => hsolid d (List.mem_cons_of_mem _ hd), pushWordChar,
        hsolid c List.mem_cons_self]
      rfl
  have hne : s.isEmpty = false := by simpa using h.ne_nil
  rw [words_eq, hfoldr, hne]
  rfl

/-- The first cell of a row is its first word. -/
theorem words_cell (h : IsWord s) (hgap : IsGap gap) (rest : List Char) :
    words (s ++ (gap ++ rest)) = s :: words rest := by
  rw [words_append_gap hgap, words_word h]
  rfl

theorem words_blank (h : ∀ c ∈ s, isBlank c = true) : words s = [] := by
  induction s with
  | nil => rfl
  | cons c s ih =>
    rw [words_cons (h c List.mem_cons_self), ih fun d hd => h d (List.mem_cons_of_mem _ hd)]

theorem words_append_blank (ht : ∀ c ∈ t, isBlank c = true) (s : List Char) :
    words (s ++ t) = words s := by
  cases t with
  | nil => rw [List.append_nil]
  | cons c t =>
    rw [words_append_cons (ht c List.mem_cons_self),
      words_blank fun d hd => ht d (List.mem_cons_of_mem _ hd), List.append_nil]

theorem words_trimStart (s : List Char) : words (trimStart s) = words s := by
  induction s with
  | nil => rfl
  | cons c s ih =>
    rw [trimStart, List.dropWhile_cons]
    split
    · rw [← trimStart, ih, words_cons ‹_›]
    · rfl

theorem exists_trimEnd_append (s : List Char) :
    ∃ t, s = trimEnd s ++ t ∧ ∀ c ∈ t, isBlank c = true := by
  refine ⟨(s.reverse.takeWhile isBlank).reverse, ?_, fun c hc => ?_⟩
  · rw [trimEnd, ← List.reverse_append, List.takeWhile_append_dropWhile, List.reverse_reverse]
  · exact List.mem_takeWhile_imp (List.mem_reverse.mp hc)

theorem words_trimEnd (s : List Char) : words (trimEnd s) = words s := by
  obtain ⟨t, hsplit, hblank⟩ := exists_trimEnd_append s
  exact (words_append_blank hblank _).symm.trans (congrArg words hsplit.symm)

/-- White space around a line makes no difference to its words. -/
theorem words_trim (s : List Char) : words (trim s) = words s := by
  rw [trim, words_trimEnd, words_trimStart]

/-- A stripped line begins with its first word. -/
theorem head?_trim {w : List Char} {ws : List (List Char)} (h : words s = (c :: w) :: ws) :
    (trim s).head? = some c := by
  rw [← words_trim] at h
  cases htrim : trim s with
  | nil =>
    rw [htrim] at h
    cases h
  | cons d t =>
    have hsolid : isBlank d = false := by
      obtain ⟨tail, hsplit, -⟩ := exists_trimEnd_append (trimStart s)
      have hfirst := List.head?_dropWhile_not isBlank s
      rw [← trimStart, hsplit, ← trim, htrim] at hfirst
      simpa using hfirst
    rw [htrim, words_eq, List.foldr_cons, pushWordChar, hsolid] at h
    exact congrArg some (List.cons.inj (List.cons.inj h).1).1

/-- A text that begins and ends with a word has nothing to strip. -/
theorem trim_eq_self (hfirst : ∀ c ∈ s.head?, isBlank c = false)
    (hlast : ∀ c ∈ s.getLast?, isBlank c = false) : trim s = s := by
  have hstart {s : List Char} (h : ∀ c ∈ s.head?, isBlank c = false) :
      s.dropWhile isBlank = s := by
    cases s with
    | nil => rfl
    | cons c s => rw [List.dropWhile_cons, h c rfl, if_neg Bool.false_ne_true]
  have hend : s.reverse.dropWhile isBlank = s.reverse := by
    refine hstart ?_
    rw [List.head?_reverse]
    exact hlast
  rw [trim, trimStart, hstart hfirst, trimEnd, hend, List.reverse_reverse]

theorem IsWord.trim (h : IsWord s) : trim s = s :=
  trim_eq_self (fun c hc => h.solid c (List.mem_of_head? hc))
    fun c hc => h.solid c (List.mem_of_getLast? hc)

theorem trim_between (hs : IsWord s) (ht : IsWord t) (middle : List Char) :
    Text.trim (s ++ (middle ++ t)) = s ++ (middle ++ t) := by
  refine trim_eq_self (fun c hc => ?_) (fun c hc => ?_)
  · rw [List.head?_append, List.head?_eq_some_head hs.ne_nil] at hc
    exact hs.solid c (Option.some.inj hc ▸ List.head_mem hs.ne_nil)
  · rw [← List.append_assoc, List.getLast?_append, List.getLast?_eq_some_getLast ht.ne_nil] at hc
    exact ht.solid c (Option.some.inj hc ▸ List.getLast_mem ht.ne_nil)

theorem isGap_replicate {n : Nat} (hn : 0 < n) : IsGap (List.replicate n ' ') where
  ne_nil := by
    intro hnil
    rw [List.replicate_eq_nil_iff] at hnil
    omega
  blank := by
    intro c hc
    rw [List.eq_of_mem_replicate hc]
    rfl

theorem toList_padRight (width : Nat) (s : String) :
    (padRight width s).toList = s.toList ++ List.replicate (width - s.length) ' ' := by
  simp [padRight, blanks]

theorem isLine_replicate (n : Nat) : IsLine (List.replicate n ' ') :=
  fun _ hc => .inl (List.eq_of_mem_replicate hc)

theorem isLine_append {s t : String} :
    IsLine (s ++ t).toList ↔ IsLine s.toList ∧ IsLine t.toList := by
  rw [String.toList_append]
  exact List.forall_mem_append

theorem isLine_padRight {width : Nat} {s : String} (hs : IsLine s.toList) :
    IsLine (padRight width s).toList := by
  rw [toList_padRight]
  exact List.forall_mem_append.mpr ⟨hs, isLine_replicate _⟩

/-- A cell that is shorter than its column is a word of the row. -/
theorem words_padRight {width : Nat} {s : String} (hs : IsWord s.toList) (h : s.length < width)
    (rest : List Char) : words ((padRight width s).toList ++ rest) = s.toList :: words rest := by
  rw [toList_padRight, List.append_assoc]
  exact words_cell hs (isGap_replicate (by omega)) rest

end Toolchain32.Text
