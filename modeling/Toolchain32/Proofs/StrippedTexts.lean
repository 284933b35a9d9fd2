import Toolchain32.Proofs.TextRows

/-!
# White space around texts

`Padded` says that a text has white space around it, and `Separated` that texts with white space
around them stand between separators. Stripping (`trim_eq_iff`) and separating
(`map_trim_separate_eq_iff`) undo exactly that.
-/

namespace Toolchain32.Text

variable {p : Char → Bool} {c separator : Char} {s t before after : List Char}
  {texts : List (List Char)}

theorem cutAt?_eq_some_iff : cutAt? p s = some (before, after) ↔
    ∃ c, p c = true ∧ (∀ d ∈ before, p d = false) ∧ s = before ++ c :: after := by
  constructor
  · intro h
    unfold cutAt? at h
    split at h
    · cases h
    · rename_i c rest hdrop
      cases h
      have hsplit := List.takeWhile_append_dropWhile (p := fun c => !p c) (l := s)
      rw [hdrop] at hsplit
      refine ⟨c, ?_, fun d hd => ?_, hsplit.symm⟩
      · have hfirst := List.head?_dropWhile_not (fun c => !p c) s
        rw [hdrop] at hfirst
        simpa using hfirst
      · simpa using List.mem_takeWhile_imp hd
  · rintro ⟨c, hc, hbefore, rfl⟩
    exact cutAt?_append_cons hbefore hc after

theorem cutAt?_eq_none_iff : cutAt? p s = none ↔ ∀ c ∈ s, p c = false := by
  unfold cutAt?
  constructor
  · intro h
    split at h
    · rename_i hdrop
      simpa using List.dropWhile_eq_nil_iff.mp hdrop
    · cases h
  · intro h
    rw [List.dropWhile_eq_nil_iff.mpr fun c hc => by rw [h c hc]; rfl]

theorem beq_of_not_mem (h : c ∉ s) : ∀ d ∈ s, (d == c) = false := fun _ hd =>
  beq_eq_false_iff_ne.mpr fun heq => h (heq ▸ hd)

theorem cutAt?_of_not_mem (h : c ∉ s) : cutAt? (· == c) s = none :=
  cutAt?_eq_none_iff.mpr (beq_of_not_mem h)

theorem cutAt?_char (h : c ∉ s) (rest : List Char) :
    cutAt? (· == c) (s ++ c :: rest) = some (s, rest) :=
  cutAt?_append_cons (beq_of_not_mem h) BEq.rfl rest

/-- A text is cut at a character that it holds. -/
theorem cutAt?_char_eq_some_iff : cutAt? (· == c) s = some (before, after) ↔
    c ∉ before ∧ s = before ++ c :: after := by
  constructor
  · intro h
    obtain ⟨d, hd, hbefore, hs⟩ := cutAt?_eq_some_iff.mp h
    obtain rfl := beq_iff_eq.mp hd
    exact ⟨fun hmem => absurd hd (by rw [hbefore d hmem]; exact Bool.false_ne_true), hs⟩
  · rintro ⟨hbefore, rfl⟩
    exact cutAt?_char hbefore after

theorem separate_of_not_mem (h : separator ∉ s) : separate separator s = [s] := by
  induction s with
  | nil => rfl
  | cons c s ih =>
    have hc : c ≠ separator := Ne.symm (List.ne_of_not_mem_cons h)
    have hrest := List.cons.inj (ih (List.not_mem_of_not_mem_cons h))
    simp only [separate, List.foldr_cons, pushPieceChar, hc, if_false]
    exact congrArg₂ List.cons (congrArg (c :: ·) hrest.1) hrest.2

/-- Every text is one piece, or a piece in front of a separator and another text. -/
@[elab_as_elim]
theorem separate_induction {motive : List Char → Prop} (separator : Char)
    (last : ∀ s, separator ∉ s → motive s)
    (piece : ∀ s rest, separator ∉ s → motive rest → motive (s ++ separator :: rest))
    (s : List Char) : motive s := by
  induction hn : s.length using Nat.strongRecOn generalizing s with
  | ind n ih =>
    by_cases hmem : separator ∈ s
    · obtain ⟨before, after, rfl, hbefore⟩ := List.eq_append_cons_of_mem hmem
      rw [List.length_append, List.length_cons] at hn
      exact piece before after hbefore (ih after.length (by omega) after rfl)
    · exact last s hmem

def Blank (s : List Char) : Prop := ∀ c ∈ s, isBlank c = true

instance : DecidablePred Blank := fun s =>
  decidable_of_iff (s.all isBlank = true) List.all_eq_true

inductive Padded (t : List Char) : List Char → Prop
  | intro {before after : List Char} (blank_before : Blank before) (blank_after : Blank after) :
      Padded t (before ++ (t ++ after))

theorem Blank.nil : Blank [] := fun _ hc => absurd hc List.not_mem_nil

theorem Blank.not_mem (h : Blank s) (hc : isBlank c = false) : c ∉ s := fun hmem => by
  rw [h c hmem] at hc
  cases hc

theorem Blank.append (hs : Blank s) (ht : Blank t) : Blank (s ++ t) :=
  List.forall_mem_append.mpr ⟨hs, ht⟩

theorem Padded.refl (t : List Char) : Padded t t := by
  have h := Padded.intro (t := t) .nil .nil
  rwa [List.nil_append, List.append_nil] at h

theorem Padded.append_left (h : Padded t s) (hbefore : Blank before) : Padded t (before ++ s) := by
  obtain ⟨hb, ha⟩ := h
  rw [← List.append_assoc]
  exact .intro (hbefore.append hb) ha

theorem Padded.append_right (h : Padded t s) (hafter : Blank after) : Padded t (s ++ after) := by
  obtain ⟨hb, ha⟩ := h
  rw [List.append_assoc, List.append_assoc]
  exact .intro hb (ha.append hafter)

theorem Padded.subset (h : Padded t s) : t ⊆ s := by
  obtain ⟨hbefore, hafter⟩ := h
  simp

theorem trimStart_append (h : Blank before) (s : List Char) :
    trimStart (before ++ s) = trimStart s := by
  rw [trimStart, List.dropWhile_append_of_pos h, trimStart]

theorem trimEnd_append (s : List Char) (h : Blank after) : trimEnd (s ++ after) = trimEnd s := by
  rw [trimEnd, List.reverse_append, List.dropWhile_append_of_pos fun c hc =>
    h c (List.mem_reverse.mp hc), trimEnd]

theorem trimStart_append_cons (hc : isBlank c = false) (s rest : List Char) :
    trimStart (s ++ c :: rest) = trimStart s ++ c :: rest := by
  rw [trimStart, List.dropWhile_append, trimStart]
  split
  · rename_i hnil
    rw [List.isEmpty_iff.mp hnil, List.dropWhile_cons, hc]
    rfl
  · rfl

theorem trimEnd_append_cons (hc : isBlank c = false) (s rest : List Char) :
    trimEnd (s ++ c :: rest) = s ++ c :: trimEnd rest := by
  have hstart := trimStart_append_cons hc rest.reverse s.reverse
  rw [trimStart, trimStart] at hstart
  rw [trimEnd, trimEnd, List.reverse_append, List.reverse_cons, List.append_assoc,
    List.singleton_append, hstart]
  simp

theorem trimEnd_append_of_not_blank (h : ¬ Blank t) (s : List Char) :
    trimEnd (s ++ t) = s ++ trimEnd t := by
  have hrest : (t.reverse.dropWhile isBlank).isEmpty = false := by
    rw [List.isEmpty_eq_false_iff]
    intro hnil
    exact h fun c hc => List.dropWhile_eq_nil_iff.mp hnil c (List.mem_reverse.mpr hc)
  rw [trimEnd, List.reverse_append, List.dropWhile_append, hrest, trimEnd,
    if_neg Bool.false_ne_true, List.reverse_append, List.reverse_reverse]

theorem trim_append_cons (hc : isBlank c = false) (s rest : List Char) :
    trim (s ++ c :: rest) = trimStart s ++ c :: trimEnd rest := by
  rw [trim, trimStart_append_cons hc, trimEnd_append_cons hc]

theorem trim_append_left (h : Blank before) (s : List Char) : trim (before ++ s) = trim s := by
  rw [trim, trimStart_append h, trim]

theorem trim_append_right (s : List Char) (h : Blank after) : trim (s ++ after) = trim s := by
  rw [trim, trimStart, List.dropWhile_append, trim, trimStart]
  split
  · rename_i hnil
    rw [List.isEmpty_iff.mp hnil, List.dropWhile_eq_nil_iff.mpr h]
  · exact trimEnd_append _ h

theorem padded_trim (s : List Char) : Padded (trim s) s := by
  obtain ⟨after, hsplit, hafter⟩ := exists_trimEnd_append (trimStart s)
  have hstart : s = s.takeWhile isBlank ++ (trim s ++ after) := by
    rw [trim, ← hsplit, trimStart, List.takeWhile_append_dropWhile]
  have hbefore : Blank (s.takeWhile isBlank) := fun c hc => List.mem_takeWhile_imp hc
  have h : Padded (trim s) (s.takeWhile isBlank ++ (trim s ++ after)) := .intro hbefore hafter
  rwa [← hstart] at h

theorem Padded.trim_eq (h : Padded t s) : trim s = trim t := by
  obtain ⟨hb, ha⟩ := h
  rw [trim_append_left hb, trim_append_right t ha]

theorem trim_trim (s : List Char) : trim (trim s) = trim s := (padded_trim s).trim_eq.symm

/-- What stripping a text gives is the text without the white space around it. -/
theorem trim_eq_iff (ht : trim t = t) : trim s = t ↔ Padded t s :=
  ⟨fun h => h ▸ padded_trim s, fun h => h.trim_eq.trans ht⟩

theorem trim_eq_nil_iff : trim s = [] ↔ Blank s := by
  rw [trim_eq_iff rfl]
  constructor
  · rintro ⟨hb, ha⟩
    exact hb.append ha
  · intro h
    have hs := (Padded.refl []).append_left h
    rwa [List.append_nil] at hs

theorem trim_trimStart (s : List Char) : trim (trimStart s) = trim s := by
  have hblank : Blank (s.takeWhile isBlank) := fun _ hc => List.mem_takeWhile_imp hc
  rw [← trim_append_left hblank, trimStart, List.takeWhile_append_dropWhile]

theorem trim_trimEnd (s : List Char) : trim (trimEnd s) = trim s := by
  obtain ⟨after, hsplit, hafter⟩ := exists_trimEnd_append s
  exact ((congrArg trim hsplit).trans (trim_append_right _ hafter)).symm

/-- Nothing has to be stripped behind a text that has nothing to strip. -/
theorem exists_gap_of_trim_cons (hc : isBlank c = false) (h : trim (c :: s) = c :: s) :
    ∃ gap, Blank gap ∧ s = gap ++ trim s := by
  have hsplit := List.takeWhile_append_dropWhile (p := isBlank) (l := s)
  refine ⟨s.takeWhile isBlank, fun d hd => List.mem_takeWhile_imp hd, ?_⟩
  have hcons := trim_append_cons hc [] s
  rw [List.nil_append, h] at hcons
  have hend : trimEnd s = s := (List.cons.inj hcons).2.symm
  rw [trim, trimStart]
  cases hstart : s.dropWhile isBlank with
  | nil =>
    rw [hstart] at hsplit
    exact hsplit.symm
  | cons d rest =>
    have hd : isBlank d = false := by
      have hfirst := List.head?_dropWhile_not isBlank s
      rw [hstart] at hfirst
      simpa using hfirst
    rw [hstart] at hsplit
    have hrest : trimEnd (d :: rest) = d :: trimEnd rest := trimEnd_append_cons hd [] rest
    rw [← hsplit, trimEnd_append_cons hd, List.append_cancel_left_eq] at hend
    rw [hrest, hend, hsplit]

inductive Separated (separator : Char) : List (List Char) → List Char → Prop
  | last {s t : List Char} (padded : Padded s t) : Separated separator [s] t
  | cons {s t u : List Char} {texts : List (List Char)} (padded : Padded s t)
      (rest : Separated separator texts u) : Separated separator (s :: texts) (t ++ separator :: u)

theorem Separated.ne_nil (h : Separated separator texts s) : texts ≠ [] := by
  cases h <;> simp

theorem Separated.not_blank (h : Separated separator texts s)
    (htexts : ∀ t ∈ texts, t ≠ [] ∧ trim t = t) : ¬ Blank s := by
  induction h with
  | last padded =>
    obtain ⟨hne, hstripped⟩ := htexts _ List.mem_cons_self
    intro hblank
    exact hne (hstripped.symm.trans (padded.trim_eq.symm.trans (trim_eq_nil_iff.mpr hblank)))
  | cons padded rest ih =>
    intro hblank
    obtain ⟨-, hrest⟩ := List.forall_mem_append.mp hblank
    exact ih (fun t ht => htexts t (List.mem_cons_of_mem _ ht)) (List.forall_mem_cons.mp hrest).2

/-- White space around the whole makes no difference to the pieces. -/
theorem map_trim_separate_append (hseparator : isBlank separator = false) (hbefore : Blank before)
    (hafter : Blank after) (s : List Char) :
    (separate separator (before ++ (s ++ after))).map trim = (separate separator s).map trim := by
  induction s using separate_induction separator generalizing before with
  | last s hs =>
    have hwhole : separator ∉ before ++ (s ++ after) := by
      simp [hbefore.not_mem hseparator, hafter.not_mem hseparator, hs]
    rw [separate_of_not_mem hwhole, separate_of_not_mem hs, List.map_singleton, List.map_singleton,
      trim_append_left hbefore, trim_append_right s hafter]
  | piece s rest hs ih =>
    have hfirst : separator ∉ before ++ s := by simp [hbefore.not_mem hseparator, hs]
    have hrest := ih Blank.nil
    rw [List.nil_append] at hrest
    rw [List.append_assoc, List.cons_append, ← List.append_assoc, separate_append_cons hfirst,
      separate_append_cons hs, List.map_cons, List.map_cons, hrest, trim_append_left hbefore]

theorem Padded.map_trim_separate (hseparator : isBlank separator = false) (h : Padded t s) :
    (separate separator s).map trim = (separate separator t).map trim := by
  obtain ⟨hbefore, hafter⟩ := h
  exact map_trim_separate_append hseparator hbefore hafter t

theorem separated_separate (separator : Char) (s : List Char) :
    Separated separator ((separate separator s).map trim) s := by
  induction s using separate_induction separator with
  | last s hs =>
    rw [separate_of_not_mem hs]
    exact .last (padded_trim s)
  | piece s rest hs ih =>
    rw [separate_append_cons hs]
    exact .cons (padded_trim s) ih

theorem Padded.not_mem (h : Padded t s) (hc : isBlank c = false) (ht : c ∉ t) : c ∉ s := by
  obtain ⟨hb, ha⟩ := h
  simp [hb.not_mem hc, ha.not_mem hc, ht]

theorem Separated.not_mem (h : Separated separator texts s) (hc : isBlank c = false)
    (hne : c ≠ separator) (htexts : ∀ t ∈ texts, c ∉ t) : c ∉ s := by
  induction h with
  | last padded => exact padded.not_mem hc (htexts _ List.mem_cons_self)
  | cons padded rest ih =>
    have hfirst := padded.not_mem hc (htexts _ List.mem_cons_self)
    have hrest := ih fun t ht => htexts t (List.mem_cons_of_mem _ ht)
    simp [hfirst, hne, hrest]

/-- Separating a text and stripping the pieces gives the texts between the separators. -/
theorem map_trim_separate_eq_iff (hseparator : isBlank separator = false)
    (htexts : ∀ t ∈ texts, trim t = t ∧ separator ∉ t) :
    (separate separator s).map trim = texts ↔ Separated separator texts s := by
  constructor
  · rintro rfl
    exact separated_separate separator s
  · intro h
    induction h with
    | last padded =>
      obtain ⟨hstripped, hfree⟩ := htexts _ List.mem_cons_self
      rw [separate_of_not_mem (padded.not_mem hseparator hfree), List.map_singleton,
        padded.trim_eq, hstripped]
    | cons padded rest ih =>
      obtain ⟨hstripped, hfree⟩ := htexts _ List.mem_cons_self
      rw [separate_append_cons (padded.not_mem hseparator hfree), List.map_cons, padded.trim_eq,
        hstripped, ih fun t ht => htexts t (List.mem_cons_of_mem _ ht)]

end Toolchain32.Text
