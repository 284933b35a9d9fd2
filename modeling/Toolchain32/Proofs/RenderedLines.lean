import Toolchain32.Proofs.ComposedLines
import Toolchain32.Proofs.StatementSyntax

/-!
# Rendered lines

A line of the language is rendered as a text with any spellings of its arguments and any white space
around them. Every rendering is read back as that line (`Line.read_of_rendering`), and besides the
renderings only those texts are read in which a control register lacks its percent sign
(`Line.read_eq_ok_iff_rendering`).
-/

namespace Toolchain32

open Fallible Text

namespace Line

variable {l : Line} {label : Option String} {parts : Parts} {stmt : Statement} {head : String}
  {texts : List (List Char)} {raw : List Char}

inductive Rendering : Line → List Char → Prop
  | empty {label : Option String} {raw : List Char} (composed : Composed label none raw) :
      Rendering ⟨label, none⟩ raw
  | statement {label : Option String} {stmt : Statement} {head : String}
      {texts : List (List Char)} {raw : List Char} (spelling : stmt.Spelling head texts)
      (composed : Composed label (some (head, texts)) raw) : Rendering ⟨label, some stmt⟩ raw

inductive BareRendering : Line → List Char → Prop
  | statement {label : Option String} {stmt : Statement} {head : String}
      {texts : List (List Char)} {raw : List Char} (spelling : stmt.BareSpelling head texts)
      (composed : Composed label (some (head, texts)) raw) : BareRendering ⟨label, some stmt⟩ raw

/-- What the language can say: names in shape, numbers in range, no list without a member and no
operation without a mnemonic. -/
structure InLanguage (l : Line) : Prop extends l.Legal where
  headed : ∀ stmt ∈ l.statement, stmt.head?.isSome = true

theorem read_eq_ofParts {code : List Char} (h : code.isEmpty = false) :
    ∃ head texts, statementParts? code = some (head, texts) ∧
      Statement.read code = Statement.ofParts head texts := by
  rw [statementParts?, h, if_neg Bool.false_ne_true, Statement.read]
  cases cutAt? isBlank code with
  | none => exact ⟨_, _, rfl, rfl⟩
  | some cut => exact ⟨_, _, rfl, rfl⟩

/-- A line is read from its label and from what its head word and arguments are read as. -/
theorem readChars_eq_ok_iff : readChars raw = .ok l ↔ label? raw = l.label ∧
    Option.Rel (fun stmt p => Statement.ofParts p.1 p.2 = .ok stmt) l.statement (parts? raw) := by
  obtain ⟨label, statement⟩ := l
  rw [readChars, label?, parts?_eq]
  generalize splitLabel (withoutComment raw) = split
  obtain ⟨label', code⟩ := split
  cases hcode : code.isEmpty with
  | true =>
    have hparts : statementParts? code = none := by rw [statementParts?, hcode, if_pos rfl]
    simp only [hparts, hcode, if_true]
    constructor
    · rintro ⟨⟩
      exact ⟨rfl, .none⟩
    · rintro ⟨rfl, ⟨⟩⟩
      rfl
  | false =>
    obtain ⟨head, texts, hparts, hread⟩ := read_eq_ofParts hcode
    simp only [hparts, hread, hcode, Bool.false_eq_true, if_false, map_eq_ok]
    constructor
    · rintro ⟨stmt, hstmt, ⟨⟩⟩
      exact ⟨rfl, .some hstmt⟩
    · rintro ⟨rfl, h⟩
      cases h with
      | some hstmt => exact ⟨_, hstmt, rfl⟩

theorem stripped_of_parts {p : String × List (List Char)} (h : parts? raw = some p) :
    ∀ t ∈ p.2, trim t = t := by
  have hsplit (s : List Char) : ∀ t ∈ Statement.splitArguments s, trim t = t := by
    unfold Statement.splitArguments
    split
    · exact fun t ht => absurd ht List.not_mem_nil
    · intro t ht
      obtain ⟨u, -, rfl⟩ := List.mem_map.mp ht
      exact trim_trim u
  rw [parts?_eq, statementParts?] at h
  split at h
  · cases h
  split at h
  · cases h
    exact hsplit _
  · cases h
    exact fun t ht => absurd ht List.not_mem_nil

theorem clean_of_forall₂ {P : Argument → List Char → Prop} {arguments : List Argument}
    (hP : ∀ a t, P a t → IsArgument t) (hhead : stmt.head? = some head)
    (h : List.Forall₂ P arguments texts) : Clean head texts where
  word := (Statement.plain_head hhead).isWord
  unmarked := (Statement.plain_head hhead).unmarked
  arguments := by
    induction h with
    | nil => exact fun t ht => absurd ht List.not_mem_nil
    | cons ha _ ih => exact List.forall_mem_cons.mpr ⟨hP _ _ ha, ih⟩

theorem parts_of_composed (hclean : Clean head texts)
    (h : Composed label (some (head, texts)) raw) :
    label? raw = label ∧ parts? raw = some (head, texts) :=
  h.parts_eq (by rintro _ ⟨⟩; exact hclean)

theorem readChars_of_composed (hclean : Clean head texts)
    (h : Composed label (some (head, texts)) raw)
    (hread : Statement.ofParts head texts = .ok stmt) :
    readChars raw = .ok ⟨label, some stmt⟩ := by
  obtain ⟨hlabel, hparts⟩ := parts_of_composed hclean h
  refine readChars_eq_ok_iff.mpr ⟨hlabel, ?_⟩
  rw [hparts]
  exact .some hread

theorem clean_of_spelling (h : stmt.Spelling head texts) : Clean head texts :=
  clean_of_forall₂ (fun _ _ => Argument.Spelling.isArgument) h.head_eq h.arguments

theorem clean_of_bareSpelling (h : stmt.BareSpelling head texts) : Clean head texts :=
  clean_of_forall₂ (fun _ _ => Argument.BareSpelling.isArgument) h.head_eq h.arguments

theorem stripped_of_clean (h : Clean head texts) : ∀ t ∈ texts, trim t = t := fun t ht =>
  (h.arguments t ht).stripped

theorem readChars_of_rendering (h : l.Rendering raw) : readChars raw = .ok l := by
  cases h with
  | empty composed =>
    obtain ⟨hlabel, hparts⟩ := composed.parts_eq (by rintro _ ⟨⟩)
    refine readChars_eq_ok_iff.mpr ⟨hlabel, ?_⟩
    rw [hparts]
    exact .none
  | statement spelling composed =>
    have hclean := clean_of_spelling spelling
    exact readChars_of_composed hclean composed
      ((Statement.ofParts_eq_ok_iff_spelling (stripped_of_clean hclean)).mpr (.inl spelling))

theorem readChars_of_bareRendering (h : l.BareRendering raw) : readChars raw = .ok l := by
  cases h with
  | statement spelling composed =>
    have hclean := clean_of_bareSpelling spelling
    exact readChars_of_composed hclean composed
      ((Statement.ofParts_eq_ok_iff_spelling (stripped_of_clean hclean)).mpr (.inr spelling))

theorem rendering_of_readChars (h : readChars raw = .ok l) :
    l.Rendering raw ∨ l.BareRendering raw := by
  obtain ⟨hlabel, hrel⟩ := readChars_eq_ok_iff.mp h
  have hcomposed := composed_parts raw
  rw [hlabel] at hcomposed
  obtain ⟨label, statement⟩ := l
  cases hparts : parts? raw with
  | none =>
    rw [hparts] at hrel hcomposed
    cases hrel
    exact .inl (.empty hcomposed)
  | some p =>
    have hstripped := stripped_of_parts hparts
    rw [hparts] at hrel hcomposed
    cases hrel with
    | some hread =>
      exact ((Statement.ofParts_eq_ok_iff_spelling hstripped).mp hread).imp
        (fun h => .statement h hcomposed) fun h => .statement h hcomposed

theorem Rendering.not_bare (h : l.Rendering raw) : ¬ l.BareRendering raw := by
  intro hbare
  cases hbare with
  | statement bare composed =>
    cases h with
    | statement spelling composed' =>
      obtain ⟨-, hparts⟩ := parts_of_composed (clean_of_bareSpelling bare) composed
      obtain ⟨-, hparts'⟩ := parts_of_composed (clean_of_spelling spelling) composed'
      rw [hparts] at hparts'
      cases hparts'
      exact spelling.not_bare bare

/-- The texts that are read as a line are its renderings, and besides them those in which a control
register lacks the percent sign. -/
theorem read_eq_ok_iff_rendering (l : Line) (raw : String) :
    (read raw = .ok l ↔ l.Rendering raw.toList ∨ l.BareRendering raw.toList) ∧
      ¬ (l.Rendering raw.toList ∧ l.BareRendering raw.toList) := by
  refine ⟨⟨rendering_of_readChars, ?_⟩, fun h => h.1.not_bare h.2⟩
  rintro (h | h)
  · exact readChars_of_rendering h
  · exact readChars_of_bareRendering h

theorem exists_separated {texts : List (List Char)} (h : texts ≠ []) :
    ∃ s, Separated ',' texts s := by
  induction texts with
  | nil => exact absurd rfl h
  | cons t texts ih =>
    cases texts with
    | nil => exact ⟨t, .last (.refl t)⟩
    | cons u texts =>
      obtain ⟨s, hs⟩ := ih (List.cons_ne_nil u texts)
      exact ⟨_, .cons (.refl t) hs⟩

theorem exists_body (parts : Parts) : ∃ s, Body parts s := by
  cases parts with
  | none => exact ⟨[], .empty .nil⟩
  | some p =>
    obtain ⟨head, texts⟩ := p
    rw [← String.ofList_toList (s := head)]
    by_cases htexts : texts = []
    · subst htexts
      exact ⟨_, .alone (.refl head.toList)⟩
    · obtain ⟨s, hs⟩ := exists_separated htexts
      exact ⟨_, .followed (c := ' ') .nil (by decide) hs⟩

theorem exists_composed (hlabel : ∀ name ∈ label, SymbolName name) (parts : Parts) :
    ∃ raw, Composed label parts raw := by
  obtain ⟨s, hs⟩ := exists_body parts
  cases label with
  | none => exact ⟨s, .plain (.unlabelled hs)⟩
  | some name => exact ⟨_, .plain (.labelled (hlabel name rfl) (.refl _) hs)⟩

theorem inLanguage_iff : l.InLanguage ↔ ∃ raw, l.Rendering raw := by
  constructor
  · intro h
    obtain ⟨label, statement⟩ := l
    cases statement with
    | none =>
      obtain ⟨raw, hraw⟩ := exists_composed h.label none
      exact ⟨raw, .empty hraw⟩
    | some stmt =>
      obtain ⟨head, hhead⟩ := Option.isSome_iff_exists.mp (h.headed stmt rfl)
      obtain ⟨texts, hspelling⟩ := Statement.exists_spelling (h.statement stmt rfl) hhead
      obtain ⟨raw, hraw⟩ := exists_composed h.label (some (head, texts))
      exact ⟨raw, .statement hspelling hraw⟩
  · rintro ⟨raw, h⟩
    refine ⟨legal_of_readChars (readChars_of_rendering h), ?_⟩
    cases h with
    | empty => rintro _ ⟨⟩
    | statement spelling _ =>
      rintro _ ⟨⟩
      rw [spelling.head_eq]
      rfl

/-- The lines of the language are those that can be rendered, and each of them is read back from
every rendering. -/
theorem read_of_rendering (l : Line) : (l.InLanguage ↔ ∃ raw : String, l.Rendering raw.toList) ∧
    ∀ raw : String, l.Rendering raw.toList → read raw = .ok l := by
  refine ⟨inLanguage_iff.trans ⟨?_, fun ⟨raw, h⟩ => ⟨raw.toList, h⟩⟩,
    fun raw h => readChars_of_rendering h⟩
  rintro ⟨raw, h⟩
  refine ⟨String.ofList raw, ?_⟩
  rwa [String.toList_ofList]

/-- A store with white space wherever it may stand, between a label and a comment that holds every
mark. -/
theorem read_of_rendering_store :
    let l : Line := ⟨some "loop",
      some (.operation (.store .stackPointer (.indirect ⟨2, by decide⟩ 15)))⟩
    let raw := " loop :\tst  %SP , [ %R2+ 0x0f ] # a, b: c # d"
    l.InLanguage ∧ l.Rendering raw.toList ∧ read raw = .ok l := by
  intro l raw
  have hbase : Register.Spelling ⟨2, by decide⟩ "%R2".toList := .intro (.number _) rfl
  have hliteral : Literal.Spelling (.hexadecimal 15) "0x0f".toList :=
    .hexadecimal "0x" "0f".toList 1 15 (.inl rfl) (by decide)
  have hinner : Place.InBrackets (.indirect ⟨2, by decide⟩ 15) " %R2+ 0x0f ".toList :=
    .displaced hbase (@Padded.intro _ " ".toList [] (by decide) (by decide)) hliteral rfl
      (by decide) (@Padded.intro _ " ".toList " ".toList (by decide) (by decide))
  have hspelling : Statement.Spelling
      (.operation (.store .stackPointer (.indirect ⟨2, by decide⟩ 15))) "st"
      ["%SP".toList, "[ %R2+ 0x0f ]".toList] :=
    ⟨rfl, .cons (.intro .stackPointer rfl) (.cons (.place (.indirect hinner)) .nil)⟩
  have hbody : Body (some ("st", ["%SP".toList, "[ %R2+ 0x0f ]".toList]))
      "\tst  %SP , [ %R2+ 0x0f ] ".toList :=
    @Body.followed "st".toList "\t".toList _ ' ' _ (by decide) (by decide)
      (.cons (@Padded.intro "%SP".toList " ".toList " ".toList (by decide) (by decide))
        (.last (@Padded.intro _ " ".toList " ".toList (by decide) (by decide))))
  have hname : SymbolName "loop" := rfl
  have hlabel : Padded "loop".toList " loop ".toList :=
    @Padded.intro _ " ".toList " ".toList (by decide) (by decide)
  have hsplit : raw.toList = " loop ".toList ++ ':' :: "\tst  %SP , [ %R2+ 0x0f ] ".toList ++
      '#' :: " a, b: c # d".toList := by decide
  have hraw : l.Rendering raw.toList := by
    rw [hsplit]
    exact .statement hspelling (.commented (.labelled hname hlabel hbody) " a, b: c # d".toList)
  obtain ⟨hlanguage, hread⟩ := read_of_rendering l
  exact ⟨hlanguage.mpr ⟨raw, hraw⟩, hraw, hread raw hraw⟩

end Line

end Toolchain32
