import Toolchain32.Proofs.LinkageDirectives

/-!
# Which directives and references are accepted

No directive may name a section, and none may declare a label external. A reference needs a section,
a label or an external name. Whatever the order of the lines, both are questions about the names of
the whole program: `exists_declareAll_iff` and `exists_relocation_iff`.
-/

namespace Toolchain32.SymbolTable

open Fallible

variable {s : Survey} {t t' : SymbolTable} {name : String} {e : ObjectSymbol} {program : Program}

namespace Describes

variable (h : Describes s t)

include h

theorem mem_names_iff (he : e ∈ t.entries) :
    e.name ∈ s.locations.names ↔ e.kind = .ofSection := by
  constructor
  · intro hname
    obtain ⟨e', he', hsection⟩ := h.sections e.name hname
    rw [eq_of_name h.sound he he' hsection.name.symm]
    exact hsection.kind
  · intro hkind
    rcases h.entries e he with ⟨other, hother, hsection⟩ | ⟨l, -, hlabel⟩ | hopen
    · exact hsection.name ▸ hother
    · cases hkind.symm.trans hlabel.kind
    · cases hkind.symm.trans hopen.kind

theorem mem_labels_iff (he : e ∈ t.entries) :
    e.name ∈ s.labels.map (·.name) ↔ e.kind = .plain ∧ e.binding.isDefined = true := by
  constructor
  · intro hname
    obtain ⟨l, hl, hsame⟩ := List.mem_map.mp hname
    obtain ⟨e', he', hlabel⟩ := h.labels l hl
    rw [eq_of_name h.sound he he' (hsame.symm.trans hlabel.name.symm)]
    exact ⟨hlabel.kind, hlabel.binding⟩
  · rintro ⟨hkind, hdefined⟩
    rcases h.entries e he with ⟨_, -, hsection⟩ | ⟨l, hl, hlabel⟩ | hopen
    · cases hkind.symm.trans hsection.kind
    · exact hlabel.name ▸ List.mem_map_of_mem hl
    · cases hdefined.symm.trans hopen.binding

/-- A name without an entry is neither a section nor a label. -/
theorem not_mem_of_get?_eq_none (hget : t.get? name = none) :
    name ∉ s.locations.names ∧ name ∉ s.labels.map (·.name) := by
  rw [get?_eq_none_iff] at hget
  constructor
  · intro hname
    obtain ⟨e, he, hsection⟩ := h.sections name hname
    exact hget (hsection.name ▸ List.mem_map_of_mem he)
  · intro hname
    obtain ⟨l, hl, rfl⟩ := List.mem_map.mp hname
    obtain ⟨e, he, hlabel⟩ := h.labels l hl
    exact hget (hlabel.name ▸ List.mem_map_of_mem he)

theorem exists_declareGlobal_iff :
    (∃ t', t.declareGlobal name = .ok t') ↔ name ∉ s.locations.names := by
  unfold SymbolTable.declareGlobal
  cases hget : t.get? name with
  | none => simp [(h.not_mem_of_get?_eq_none hget).1]
  | some e =>
    obtain ⟨he, rfl⟩ := (get?_eq_some_iff h.sound).mp hget
    rw [h.mem_names_iff he]
    by_cases hkind : e.kind = .ofSection
    · simp [hkind]
    · by_cases hbinding : e.binding = .localOnly <;> simp [hkind, hbinding]

theorem exists_declareExternal_iff : (∃ t', t.declareExternal name = .ok t') ↔
    name ∉ s.locations.names ∧ name ∉ s.labels.map (·.name) := by
  unfold SymbolTable.declareExternal
  cases hget : t.get? name with
  | none => simpa using h.not_mem_of_get?_eq_none hget
  | some e =>
    obtain ⟨he, rfl⟩ := (get?_eq_some_iff h.sound).mp hget
    rw [h.mem_names_iff he, h.mem_labels_iff he]
    cases hkind : e.kind with
    | ofSection => simp [hkind]
    | plain => cases hbinding : e.binding <;> simp [hkind, hbinding, Binding.isDefined]

theorem exists_declare_iff (st : Statement) : (∃ t', t.declare st = .ok t') ↔
    (∀ name ∈ st.globals, name ∉ s.locations.names) ∧
      ∀ name ∈ st.externals, name ∉ s.locations.names ∧ name ∉ s.labels.map (·.name) := by
  cases st with
  | global names =>
    have hnames := exists_foldlM_iff (P := Describes s) (f := SymbolTable.declareGlobal)
      (fun _ _ ht => exists_declareGlobal_iff ht) (fun _ _ _ ht h => ht.declareGlobal h) h names
    simpa [SymbolTable.declare, Statement.globals, Statement.externals] using hnames
  | external names =>
    have hnames := exists_foldlM_iff (P := Describes s) (f := SymbolTable.declareExternal)
      (fun _ _ ht => exists_declareExternal_iff ht) (fun _ _ _ ht h => ht.declareExternal h) h names
    simpa [SymbolTable.declare, Statement.globals, Statement.externals] using hnames
  | openSection name | words values | skip n | finish | operation op =>
    simp [SymbolTable.declare, Statement.globals, Statement.externals]

omit h in
/-- The directives of a program are accepted exactly if they name no section, and declare no label
external. -/
theorem exists_declareAll_iff (h : Describes s t) : (∃ t', t.declareAll program = .ok t') ↔
    (∀ name ∈ program.globals, name ∉ s.locations.names) ∧
      ∀ name ∈ program.externals, name ∉ s.locations.names ∧ name ∉ s.labels.map (·.name) := by
  induction program generalizing t with
  | nil => simp [SymbolTable.declareAll, Program.globals, Program.externals]
  | cons n rest ih =>
    rw [SymbolTable.declareAll, Program.globals_cons, Program.externals_cons,
      List.forall_mem_append, List.forall_mem_append]
    cases hst : n.line.statement with
    | none => simpa using ih h
    | some st =>
      have hfirst := exists_declare_iff h st
      simp only [Option.map_some, Option.getD_some]
      cases hdeclare : t.declare st with
      | error e =>
        rw [hdeclare] at hfirst
        have hnot := mt hfirst.mpr (by simp)
        simp only [reduceCtorEq, exists_false, false_iff]
        exact fun hall => hnot ⟨hall.1.1, hall.2.1⟩
      | ok t₁ =>
        obtain ⟨hglobals, hexternals⟩ := hfirst.mp ⟨t₁, hdeclare⟩
        rw [ih (h.declare hdeclare)]
        exact ⟨fun hall => ⟨⟨hglobals, hall.1⟩, hexternals, hall.2⟩,
          fun hall => ⟨hall.1.2, hall.2.2⟩⟩

end Describes

/-- A reference has a relocation record exactly if its name is that of a section or a label, or is
declared external. -/
theorem exists_relocation_iff (hs : s.Sound) (h : s.symbols.declareAll program = .ok t)
    (name : String) (offset : Word) : (∃ r, t.relocation name offset = .ok r) ↔
      name ∈ s.locations.names ∨ name ∈ s.labels.map (·.name) ∨ name ∈ program.externals := by
  have ht := describes_of_declareAll hs h
  rw [← binding?_eq_external_iff hs h, binding?, relocation]
  cases hget : t.get? name with
  | none =>
    obtain ⟨hsection, hlabel⟩ := ht.not_mem_of_get?_eq_none hget
    simp [hsection, hlabel]
  | some e =>
    obtain ⟨he, rfl⟩ := (get?_eq_some_iff ht.sound).mp hget
    rw [ht.mem_names_iff he, ht.mem_labels_iff he]
    cases hkind : e.kind with
    | ofSection => simp [hkind]
    | plain =>
      cases hbinding : e.binding with
      | localOnly =>
        -- A local name is a label, which has an owner.
        rcases ht.entries e he with ⟨_, -, hsection⟩ | ⟨l, -, hlabel⟩ | hopen
        · cases hkind.symm.trans hsection.kind
        · obtain ⟨o, ho, -⟩ := hlabel.owner
          simp [hkind, hbinding, Binding.isDefined, ho]
        · have hdefined := hopen.binding
          rw [hbinding] at hdefined
          cases hdefined
      | global | external | undefined => simp [hkind, hbinding, Binding.isDefined]

end Toolchain32.SymbolTable
