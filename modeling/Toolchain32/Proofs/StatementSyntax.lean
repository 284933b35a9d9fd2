import Toolchain32.Proofs.OperationSyntax

/-!
# The syntax of statements

A statement is written as a head word (`Statement.head?`) and arguments (`Statement.arguments`). The
texts of a head word and of arguments are read as a statement exactly if they spell it, but for the
percent sign of a control register: `Statement.ofParts_eq_ok_iff_spelling`.
-/

namespace Toolchain32

open Fallible Text

variable {texts : List (List Char)}

theorem Fallible.mapM_eq_ok_iff {ε α β : Type} {f : α → Except ε β} {as : List α} {bs : List β} :
    as.mapM f = .ok bs ↔ List.Forall₂ (fun b a => f a = .ok b) bs as := by
  induction as generalizing bs with
  | nil =>
    rw [List.forall₂_nil_right_iff]
    exact ⟨fun h => (Except.ok.inj h).symm, fun h => congrArg Except.ok h.symm⟩
  | cons a as ih =>
    rw [List.mapM_cons, bind_eq_ok, List.forall₂_cons_right_iff]
    constructor
    · rintro ⟨b, hb, h⟩
      obtain ⟨rest, hrest, h⟩ := bind_eq_ok.mp h
      cases h
      exact ⟨b, rest, hb, ih.mp hrest, rfl⟩
    · rintro ⟨b, rest, hb, hrest, rfl⟩
      exact ⟨b, hb, bind_eq_ok.mpr ⟨rest, ih.mpr hrest, rfl⟩⟩

namespace Statement

variable {head : String} {stmt : Statement}

def head? : Statement → Option String
  | global [] | external [] | words [] => none
  | global _ => some ".global"
  | external _ => some ".extern"
  | openSection _ => some ".section"
  | words _ => some ".word"
  | skip _ => some ".skip"
  | finish => some ".end"
  | operation op => op.mnemonic?

def arguments : Statement → List Argument
  | global names | external names => names.map .name
  | openSection name => [.sectionName name]
  | words values => values.map .value
  | skip bytes => [.count bytes]
  | finish => []
  | operation op => op.arguments

/-- One or more arguments of one kind. -/
theorem list_eq_ok_iff {α : Type} {f : List Char → Except SyntaxError α} {make : α → Argument}
    (hmake : ∀ a s, (make a).Reads s ↔ f s = .ok a) {as : List α} :
    (if texts.isEmpty then .error .missingArgument else texts.mapM f) = .ok as ↔
      as ≠ [] ∧ List.Forall₂ Argument.Reads (as.map make) texts := by
  rw [List.forall₂_map_left_iff]
  simp only [hmake]
  cases texts with
  | nil =>
    simp only [List.isEmpty_nil, if_true, List.forall₂_nil_right_iff, reduceCtorEq, false_iff]
    exact fun h => h.1 h.2
  | cons s texts =>
    rw [if_neg (by simp), mapM_eq_ok_iff, and_iff_right_of_imp]
    rintro ⟨⟩
    simp

theorem readNames_eq_ok_iff {names : List String} : readNames texts = .ok names ↔
    names ≠ [] ∧ List.Forall₂ Argument.Reads (names.map .name) texts := by
  refine list_eq_ok_iff fun name s => ?_
  rw [Argument.Reads]
  by_cases hs : isSymbolName s <;> simp [hs]

theorem readWords_eq_ok_iff {values : List Value} : readWords texts = .ok values ↔
    values ≠ [] ∧ List.Forall₂ Argument.Reads (values.map .value) texts :=
  list_eq_ok_iff fun _ _ => Iff.rfl

theorem readSectionName_eq_ok_iff {name : String} : readSectionName texts = .ok name ↔
    List.Forall₂ Argument.Reads [.sectionName name] texts := by
  constructor
  · intro h
    unfold readSectionName at h
    split at h
    · cases h
    · rename_i s
      by_cases hs : isSectionName s
      · rw [if_pos hs] at h
        cases h
        exact .cons ⟨hs, rfl⟩ .nil
      · rw [if_neg hs] at h
        cases h
    · cases h
  · rintro (_ | ⟨⟨hs, rfl⟩, ⟨⟩⟩)
    exact if_pos hs

theorem readSkip_eq_ok_iff {bytes : Word} : readSkip texts = .ok bytes ↔
    List.Forall₂ Argument.Reads [.count bytes] texts := by
  constructor
  · intro h
    obtain ⟨s, -, rfl, -⟩ := lossless_of_readSkip h
    exact .cons h .nil
  · rintro (_ | ⟨h, ⟨⟩⟩)
    exact h

theorem ofParts_of_mem_forms : ∀ e ∈ forms, ∀ texts,
    ofParts e.1 texts = (Operation.read e.1 texts).map operation := by
  simp only [forms, List.forall_mem_cons, List.not_mem_nil, false_implies, implies_true, and_true]
  and_intros
  all_goals exact fun _ => rfl

theorem reads_of_ofParts (h : ofParts head texts = .ok stmt) :
    stmt.head? = some head ∧ List.Forall₂ Argument.Reads stmt.arguments texts := by
  unfold ofParts at h
  split at h
  case h_6 =>
    split at h
    · rename_i hempty
      cases h
      rw [List.isEmpty_iff.mp hempty]
      exact ⟨rfl, .nil⟩
    · cases h
  all_goals
    rw [map_eq_ok] at h
    obtain ⟨_, h, rfl⟩ := h
  · obtain ⟨hne, hreads⟩ := readNames_eq_ok_iff.mp h
    obtain ⟨name, names, rfl⟩ := List.exists_cons_of_ne_nil hne
    exact ⟨rfl, hreads⟩
  · obtain ⟨hne, hreads⟩ := readNames_eq_ok_iff.mp h
    obtain ⟨name, names, rfl⟩ := List.exists_cons_of_ne_nil hne
    exact ⟨rfl, hreads⟩
  · exact ⟨rfl, readSectionName_eq_ok_iff.mp h⟩
  · obtain ⟨hne, hreads⟩ := readWords_eq_ok_iff.mp h
    obtain ⟨v, values, rfl⟩ := List.exists_cons_of_ne_nil hne
    exact ⟨rfl, hreads⟩
  · exact ⟨rfl, readSkip_eq_ok_iff.mp h⟩
  · exact Operation.read_eq_ok_iff.mp h

/-- A statement is read exactly from its head word and what its arguments are read from. -/
theorem ofParts_eq_ok_iff : ofParts head texts = .ok stmt ↔
    stmt.head? = some head ∧ List.Forall₂ Argument.Reads stmt.arguments texts := by
  refine ⟨reads_of_ofParts, ?_⟩
  rintro ⟨hhead, hreads⟩
  cases stmt with
  | global names =>
    cases names <;> cases hhead
    exact map_eq_ok.mpr ⟨_, readNames_eq_ok_iff.mpr ⟨List.cons_ne_nil _ _, hreads⟩, rfl⟩
  | external names =>
    cases names <;> cases hhead
    exact map_eq_ok.mpr ⟨_, readNames_eq_ok_iff.mpr ⟨List.cons_ne_nil _ _, hreads⟩, rfl⟩
  | openSection name =>
    cases hhead
    exact map_eq_ok.mpr ⟨_, readSectionName_eq_ok_iff.mpr hreads, rfl⟩
  | words values =>
    cases values <;> cases hhead
    exact map_eq_ok.mpr ⟨_, readWords_eq_ok_iff.mpr ⟨List.cons_ne_nil _ _, hreads⟩, rfl⟩
  | skip bytes =>
    cases hhead
    exact map_eq_ok.mpr ⟨_, readSkip_eq_ok_iff.mpr hreads, rfl⟩
  | finish =>
    cases hhead
    cases hreads
    rfl
  | operation op =>
    rw [ofParts_of_mem_forms _ (op.mem_forms hhead)]
    exact map_eq_ok.mpr ⟨op, Operation.read_eq_ok_iff.mpr ⟨hhead, hreads⟩, rfl⟩

structure Spelling (stmt : Statement) (head : String) (texts : List (List Char)) : Prop where
  head_eq : stmt.head? = some head
  arguments : List.Forall₂ Argument.Spelling stmt.arguments texts

structure BareSpelling (stmt : Statement) (head : String) (texts : List (List Char)) : Prop where
  head_eq : stmt.head? = some head
  control : ∃ r, .control r ∈ stmt.arguments
  arguments : List.Forall₂ Argument.BareSpelling stmt.arguments texts

theorem eq_of_control_mem {control : ControlRegister} (h : .control control ∈ stmt.arguments) :
    (∃ r, stmt = .operation (.readControl control r)) ∨
      ∃ r, stmt = .operation (.writeControl r control) := by
  cases stmt with
  | operation op =>
    cases op with
    | readControl c r =>
      obtain rfl : control = c := by simpa [arguments, Operation.arguments] using h
      exact .inl ⟨r, rfl⟩
    | writeControl r c =>
      obtain rfl : control = c := by simpa [arguments, Operation.arguments] using h
      exact .inr ⟨r, rfl⟩
    | _ => simp [arguments, Operation.arguments] at h
  | _ => simp [arguments] at h

theorem spelling_of_reads {arguments : List Argument} (htexts : ∀ t ∈ texts, trim t = t)
    (hcontrol : ∀ r, .control r ∉ arguments)
    (h : List.Forall₂ Argument.Reads arguments texts) :
    List.Forall₂ Argument.Spelling arguments texts := by
  induction h with
  | nil => exact .nil
  | @cons a t arguments texts ha hrest ih =>
    have hne (r : ControlRegister) : a ≠ .control r := fun heq =>
      hcontrol r (heq ▸ List.mem_cons_self)
    have hspelling := (Argument.reads_iff (htexts t List.mem_cons_self)).mp ha
    rw [Argument.bareSpelling_iff hne, or_self] at hspelling
    exact .cons hspelling (ih (fun t ht => htexts t (List.mem_cons_of_mem _ ht))
      fun r hr => hcontrol r (List.mem_cons_of_mem _ hr))

/-- A statement is read from its spellings, and also without the percent sign of its control
register. -/
theorem ofParts_eq_ok_iff_spelling (htexts : ∀ t ∈ texts, trim t = t) :
    ofParts head texts = .ok stmt ↔ stmt.Spelling head texts ∨ stmt.BareSpelling head texts := by
  rw [ofParts_eq_ok_iff]
  constructor
  · rintro ⟨hhead, hreads⟩
    by_cases hcontrol : ∃ r, .control r ∈ stmt.arguments
    · have harguments : List.Forall₂ Argument.Spelling stmt.arguments texts ∨
          List.Forall₂ Argument.BareSpelling stmt.arguments texts := by
        obtain ⟨control, hmem⟩ := hcontrol
        obtain ⟨r, rfl⟩ | ⟨r, rfl⟩ := eq_of_control_mem hmem
        · obtain _ | ⟨hcontrol, _ | ⟨hr, ⟨⟩⟩⟩ := hreads
          have hr := readRegister_eq_ok_iff.mp hr
          exact (readControlRegister_eq_ok_iff.mp hcontrol).imp
            (fun h => .cons h (.cons hr .nil)) fun h => .cons h (.cons hr .nil)
        · obtain _ | ⟨hr, _ | ⟨hcontrol, ⟨⟩⟩⟩ := hreads
          have hr := readRegister_eq_ok_iff.mp hr
          exact (readControlRegister_eq_ok_iff.mp hcontrol).imp
            (fun h => .cons hr (.cons h .nil)) fun h => .cons hr (.cons h .nil)
      exact harguments.imp (fun h => ⟨hhead, h⟩) fun h => ⟨hhead, hcontrol, h⟩
    · exact .inl ⟨hhead, spelling_of_reads htexts (not_exists.mp hcontrol) hreads⟩
  · rintro (h | h)
    · exact ⟨h.head_eq, h.arguments.imp fun _ _ ha =>
        (Argument.reads_iff ha.isArgument.stripped).mpr (.inl ha)⟩
    · exact ⟨h.head_eq, h.arguments.imp fun _ _ ha =>
        (Argument.reads_iff ha.isArgument.stripped).mpr (.inr ha)⟩

theorem Spelling.not_bare (h : stmt.Spelling head texts) : ¬ stmt.BareSpelling head texts := by
  intro hbare
  obtain ⟨control, hmem⟩ := hbare.control
  have hspelling := h.arguments
  have hbare := hbare.arguments
  obtain ⟨r, rfl⟩ | ⟨r, rfl⟩ := eq_of_control_mem hmem
  · obtain _ | ⟨hs, -⟩ := hspelling
    obtain _ | ⟨ht, -⟩ := hbare
    exact ControlRegister.Spelling.not_bare hs ht
  · obtain _ | ⟨-, _ | ⟨hs, -⟩⟩ := hspelling
    obtain _ | ⟨-, _ | ⟨ht, -⟩⟩ := hbare
    exact ControlRegister.Spelling.not_bare hs ht

theorem plain_head (h : stmt.head? = some head) : Plain head.toList := by
  cases stmt with
  | global names | external names =>
    cases names <;> cases h
    exact plain_of_all (by decide) (by decide)
  | words values =>
    cases values <;> cases h
    exact plain_of_all (by decide) (by decide)
  | openSection | skip | finish => cases h; exact plain_of_all (by decide) (by decide)
  | operation op =>
    have hforms : ∀ name ∈ forms.map (·.1), name.toList ≠ [] ∧ name.toList.all isPlain = true := by
      decide
    obtain ⟨hne, hplain⟩ := hforms head (List.mem_map_of_mem (op.mem_forms h))
    exact plain_of_all hne hplain

theorem legal_of_mem_arguments (h : stmt.Legal) : ∀ a ∈ stmt.arguments, a.Legal := by
  cases stmt with
  | operation op =>
    have hop : op.Legal := h
    cases op with
    | call | jump | branch | load | store =>
      simpa [arguments, Operation.arguments, Argument.Legal, Operand.Legal, Operation.Legal]
        using hop
    | _ => simp [arguments, Operation.arguments, Argument.Legal]
  | skip | finish => simp [arguments, Argument.Legal]
  | global | external | words => simpa [arguments, Argument.Legal, Legal] using h
  | openSection name => exact List.forall_mem_singleton.mpr h

theorem exists_spelling (hlegal : stmt.Legal) (hhead : stmt.head? = some head) :
    ∃ texts, stmt.Spelling head texts := by
  have hspelled (arguments : List Argument) (h : ∀ a ∈ arguments, a.Legal) :
      ∃ texts, List.Forall₂ Argument.Spelling arguments texts := by
    induction arguments with
    | nil => exact ⟨[], .nil⟩
    | cons a arguments ih =>
      obtain ⟨s, hs⟩ := Argument.exists_spelling (h a List.mem_cons_self)
      obtain ⟨texts, htexts⟩ := ih fun b hb => h b (List.mem_cons_of_mem _ hb)
      exact ⟨s :: texts, .cons hs htexts⟩
  obtain ⟨texts, htexts⟩ := hspelled _ (legal_of_mem_arguments hlegal)
  exact ⟨texts, hhead, htexts⟩

end Statement

end Toolchain32
