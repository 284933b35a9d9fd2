import Toolchain32.Proofs.ArgumentSpellings
import Toolchain32.Proofs.LosslessLines

/-!
# What lines are composed of

A line is composed of a label, a head word with its arguments and a comment, each of which may be
missing, with white space around them. Every line is composed of the parts that it is cut into
(`Line.composed_parts`), and of no other ones that hold no mark themselves
(`Line.Composed.parts_eq`).
-/

namespace Toolchain32

open Text

abbrev Parts := Option (String × List (List Char))

namespace Line

variable {label : Option String} {parts : Parts} {head : String} {arguments : List (List Char)}
  {s t before after raw : List Char} {c : Char}

inductive Body : Parts → List Char → Prop
  | empty {s : List Char} (blank : Blank s) : Body none s
  | alone {head s : List Char} (padded : Padded head s) : Body (some (String.ofList head, [])) s
  | followed {head before s : List Char} {c : Char} {arguments : List (List Char)}
      (blank_before : Blank before) (blank : isBlank c = true)
      (separated : Separated ',' arguments s) :
      Body (some (String.ofList head, arguments)) (before ++ (head ++ c :: s))

inductive Code : Option String → Parts → List Char → Prop
  | unlabelled {parts : Parts} {s : List Char} (body : Body parts s) : Code none parts s
  | labelled {name : String} {parts : Parts} {before s : List Char} (legal : SymbolName name)
      (padded : Padded name.toList before) (body : Body parts s) :
      Code (some name) parts (before ++ ':' :: s)

inductive Composed : Option String → Parts → List Char → Prop
  | plain {label : Option String} {parts : Parts} {s : List Char} (code : Code label parts s) :
      Composed label parts s
  | commented {label : Option String} {parts : Parts} {s : List Char} (code : Code label parts s)
      (comment : List Char) : Composed label parts (s ++ '#' :: comment)

def statementParts? (code : List Char) : Parts :=
  if code.isEmpty then none
  else match cutAt? isBlank code with
    | some (head, tail) => some (String.ofList head, Statement.splitArguments (trim tail))
    | none => some (String.ofList code, [])

def label? (raw : List Char) : Option String := (splitLabel (withoutComment raw)).1

theorem parts?_eq (raw : List Char) :
    parts? raw = statementParts? (splitLabel (withoutComment raw)).2 := rfl

theorem withoutComment_of_not_mem (h : '#' ∉ s) : withoutComment s = trim s := by
  rw [withoutComment, cutAt?_of_not_mem h]

theorem withoutComment_append (h : '#' ∉ s) (comment : List Char) :
    withoutComment (s ++ '#' :: comment) = trim s := by
  rw [withoutComment, cutAt?_char h]

theorem splitLabel_of_not_mem (h : ':' ∉ s) : splitLabel s = (none, s) := by
  rw [splitLabel, cutAt?_of_not_mem h]

theorem splitArguments_trim (h : trim s ≠ []) (hpadded : Padded (trim s) t) :
    Statement.splitArguments (trim s) = (separate ',' t).map trim := by
  rw [Statement.splitArguments, if_neg (by simpa using h),
    hpadded.map_trim_separate (by decide)]

theorem body_statementParts (s : List Char) : Body (statementParts? (trim s)) s := by
  unfold statementParts?
  split
  · rename_i hempty
    exact .empty (trim_eq_nil_iff.mp (List.isEmpty_iff.mp hempty))
  have hpadded := padded_trim s
  split
  · rename_i head tail hcut
    obtain ⟨c, hc, -, htrim⟩ := cutAt?_eq_some_iff.mp hcut
    rw [htrim] at hpadded
    cases hpadded with
    | @intro before after hbefore hafter =>
    rw [List.append_assoc, List.cons_append]
    by_cases htail : trim tail = []
    · have hblank : Blank (c :: (tail ++ after)) :=
        List.forall_mem_cons.mpr ⟨hc, (trim_eq_nil_iff.mp htail).append hafter⟩
      rw [htail]
      exact .alone (.intro hbefore hblank)
    · rw [splitArguments_trim htail ((padded_trim tail).append_right hafter)]
      exact .followed hbefore hc (separated_separate ',' _)
  · exact .alone hpadded

theorem code_parts (s : List Char) :
    Code (splitLabel (trim s)).1 (statementParts? (splitLabel (trim s)).2) s := by
  unfold splitLabel
  split
  · rename_i head tail hcut
    split
    · rename_i hname
      obtain ⟨-, htrim⟩ := cutAt?_char_eq_some_iff.mp hcut
      have hpadded := padded_trim s
      rw [htrim] at hpadded
      cases hpadded with
      | @intro before after hbefore hafter =>
      rw [List.append_assoc, ← List.append_assoc]
      have hbody := body_statementParts (tail ++ after)
      rw [trim_append_right tail hafter] at hbody
      refine .labelled ?_ ?_ hbody
      · rwa [SymbolName, String.toList_ofList]
      · rw [String.toList_ofList]
        exact (padded_trim head).append_left hbefore
    · exact .unlabelled (body_statementParts s)
  · exact .unlabelled (body_statementParts s)

/-- Every line is composed of the parts that it is cut into. -/
theorem composed_parts (raw : List Char) : Composed (label? raw) (parts? raw) raw := by
  rw [label?, parts?_eq]
  by_cases hmem : '#' ∈ raw
  · obtain ⟨s, comment, rfl, hs⟩ := List.eq_append_cons_of_mem hmem
    rw [withoutComment_append hs]
    exact .commented (code_parts s) comment
  · rw [withoutComment_of_not_mem hmem]
    exact .plain (code_parts raw)

structure Clean (head : String) (arguments : List (List Char)) : Prop where
  word : IsWord head.toList
  unmarked : Unmarked head.toList
  arguments : ∀ s ∈ arguments, IsArgument s

theorem statementParts_of_isWord (h : IsWord s) :
    statementParts? s = some (String.ofList s, []) := by
  rw [statementParts?, if_neg (by simpa using h.ne_nil), cutAt?_eq_none_iff.mpr h.solid]

theorem statementParts_append_cons (hs : IsWord s) (hc : isBlank c = true) (t : List Char) :
    statementParts? (s ++ c :: t) =
      some (String.ofList s, Statement.splitArguments (trim t)) := by
  rw [statementParts?, if_neg (by simp), cutAt?_append_cons hs.solid hc]

theorem trim_word_append (hs : IsWord s) (ht : ¬ Blank t) : trim (s ++ t) = s ++ trimEnd t := by
  cases s with
  | nil => exact absurd rfl hs.ne_nil
  | cons d s =>
    have hd : isBlank d = false := hs.solid d List.mem_cons_self
    have hcons := trim_append_cons hd [] (s ++ t)
    rw [trimEnd_append_of_not_blank ht] at hcons
    exact hcons

theorem Body.statementParts_eq (h : Body parts s) (hclean : ∀ p ∈ parts, Clean p.1 p.2) :
    statementParts? (trim s) = parts := by
  cases h with
  | empty blank =>
    rw [trim_eq_nil_iff.mpr blank]
    rfl
  | alone padded =>
    have hword := (hclean _ rfl).word
    rw [String.toList_ofList] at hword
    rw [padded.trim_eq, hword.trim, statementParts_of_isWord hword]
  | followed blank_before blank separated =>
    rename_i head before s c arguments
    have hword := (hclean _ rfl).word
    rw [String.toList_ofList] at hword
    have harguments : ∀ t ∈ arguments, IsArgument t := (hclean _ rfl).arguments
    have hblank := separated.not_blank fun t ht =>
      ⟨(harguments t ht).ne_nil, (harguments t ht).stripped⟩
    have hcons : ¬ Blank (c :: s) := fun h => hblank (List.forall_mem_cons.mp h).2
    have hs : trim s ≠ [] := fun hnil => hblank (trim_eq_nil_iff.mp hnil)
    have hend : trimEnd (c :: s) = c :: trimEnd s := trimEnd_append_of_not_blank hblank [c]
    have hsplit : (separate ',' s).map trim = arguments :=
      (map_trim_separate_eq_iff (by decide) fun t ht =>
        ⟨(harguments t ht).stripped, (harguments t ht).unmarked.not_mem (by decide)⟩).mpr separated
    rw [trim_append_left blank_before, trim_word_append hword hcons, hend,
      statementParts_append_cons hword blank, trim_trimEnd, splitArguments_trim hs (padded_trim s),
      hsplit]

theorem Body.not_mem (h : Body parts s) (hclean : ∀ p ∈ parts, Clean p.1 p.2)
    (hc : isMark c = true) (hne : c ≠ ',') : c ∉ s := by
  have hblank := isBlank_of_isMark hc
  cases h with
  | empty blank => exact blank.not_mem hblank
  | alone padded =>
    have hhead := (hclean _ rfl).unmarked
    rw [String.toList_ofList] at hhead
    exact padded.not_mem hblank (hhead.not_mem hc)
  | followed blank_before blank separated =>
    have hhead := (hclean _ rfl).unmarked
    rw [String.toList_ofList] at hhead
    have harguments := separated.not_mem hblank hne fun t ht =>
      ((hclean _ rfl).arguments t ht).unmarked.not_mem hc
    rename_i d _
    have hgap : c ≠ d := by
      rintro rfl
      rw [hblank] at blank
      cases blank
    simp [blank_before.not_mem hblank, hhead.not_mem hc, hgap, harguments]

theorem Code.splitLabel_eq (h : Code label parts s) (hclean : ∀ p ∈ parts, Clean p.1 p.2) :
    (splitLabel (trim s)).1 = label ∧ statementParts? (splitLabel (trim s)).2 = parts := by
  cases h with
  | unlabelled body =>
    have hcolon : ':' ∉ trim s := fun hmem =>
      body.not_mem hclean (by decide) (by decide) ((padded_trim s).subset hmem)
    rw [splitLabel_of_not_mem hcolon]
    exact ⟨rfl, body.statementParts_eq hclean⟩
  | labelled legal padded body =>
    rename_i name before s
    have hcolon : ':' ∉ trimStart before := fun hmem =>
      padded.not_mem (by decide) (legal.plain.not_mem (by decide))
        ((List.dropWhile_suffix isBlank).subset hmem)
    have hname : trim (trimStart before) = name.toList := by
      rw [trim_trimStart, padded.trim_eq, legal.plain.isWord.trim]
    have hsymbol : isSymbolName name.toList = true := legal
    rw [trim_append_cons (by decide), splitLabel, cutAt?_char hcolon]
    simp only [hname, hsymbol, if_true, String.ofList_toList, trim_trimEnd, true_and]
    exact body.statementParts_eq hclean

theorem Code.not_mem (h : Code label parts s) (hclean : ∀ p ∈ parts, Clean p.1 p.2) : '#' ∉ s := by
  cases h with
  | unlabelled body => exact body.not_mem hclean (by decide) (by decide)
  | labelled legal padded body =>
    have hname := padded.not_mem (c := '#') (by decide) (legal.plain.not_mem (by decide))
    have hbody := body.not_mem (c := '#') hclean (by decide) (by decide)
    simp [hname, hbody]

/-- A line is composed of no other parts than those that it is cut into. -/
theorem Composed.parts_eq (h : Composed label parts raw) (hclean : ∀ p ∈ parts, Clean p.1 p.2) :
    label? raw = label ∧ parts? raw = parts := by
  rw [label?, parts?_eq]
  cases h with
  | plain code =>
    rw [withoutComment_of_not_mem (code.not_mem hclean)]
    exact code.splitLabel_eq hclean
  | commented code comment =>
    rw [withoutComment_append (code.not_mem hclean)]
    exact code.splitLabel_eq hclean

end Line

end Toolchain32
