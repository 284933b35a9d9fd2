import Toolchain32.Proofs.FirstMentions
import Toolchain32.Proofs.SymbolTables

/-!
# What linkage directives do

The directives of a program bind its names, whatever their order: a name is external exactly if the
program declares it so, and global exactly if the program defines it as a label and declares it
global. `Rebinds` says so of the table before and after some directives. A name that is neither a
section nor a label gets an entry where it is declared first: `names_of_declareAll`.
-/

namespace Toolchain32

open Fallible

namespace Statement

def globals : Statement → List String
  | .global names => names
  | _ => []

def externals : Statement → List String
  | .external names => names
  | _ => []

def declared (s : Statement) : List String := s.globals ++ s.externals

end Statement

namespace Program

def globals (program : Program) : List String :=
  program.flatMap fun n => (n.line.statement.map Statement.globals).getD []

def externals (program : Program) : List String :=
  program.flatMap fun n => (n.line.statement.map Statement.externals).getD []

def declared (program : Program) : List String :=
  program.flatMap fun n => (n.line.statement.map Statement.declared).getD []

theorem globals_cons (n : NumberedLine) (rest : Program) : globals (n :: rest) =
    (n.line.statement.map Statement.globals).getD [] ++ globals rest := List.flatMap_cons

theorem externals_cons (n : NumberedLine) (rest : Program) : externals (n :: rest) =
    (n.line.statement.map Statement.externals).getD [] ++ externals rest := List.flatMap_cons

theorem declared_cons (n : NumberedLine) (rest : Program) : declared (n :: rest) =
    (n.line.statement.map Statement.declared).getD [] ++ declared rest := List.flatMap_cons

theorem mem_declared {program : Program} {name : String} :
    name ∈ program.declared ↔ name ∈ program.globals ∨ name ∈ program.externals := by
  induction program with
  | nil => simp [declared, globals, externals]
  | cons n rest ih =>
    rw [declared_cons, globals_cons, externals_cons]
    cases n.line.statement with
    | none => simpa using ih
    | some s =>
      simp only [Option.map_some, Option.getD_some, Statement.declared, List.mem_append, ih]
      tauto

end Program

namespace SymbolTable

variable {t t' t'' : SymbolTable} {name other : String} {e found : ObjectSymbol} {binding : Binding}
  {globals globals' externals externals' : List String} {s : Survey}

def binding? (t : SymbolTable) (name : String) : Option Binding :=
  (t.get? name).map (·.binding)

theorem binding?_of_mem (ht : t.Sound) (he : e ∈ t.entries) :
    t.binding? e.name = some e.binding := by
  rw [binding?, (get?_eq_some_iff ht).mpr ⟨he, rfl⟩]
  rfl

theorem binding?_push {value : Word} {kind : SymbolKind} {owner : Option Nat} :
    (t.push name value kind owner binding).binding? other =
      if other = name then some binding else t.binding? other := by
  rw [binding?, get?_push]
  split
  · rfl
  · rfl

theorem binding?_bind (ht : t.Sound) (h : t.get? name = some found) :
    (t.bind name binding).binding? other =
      if other = name then some binding else t.binding? other := by
  rw [binding?, get?_bind ht.indexed h]
  split
  · rfl
  · rfl

theorem binding?_declareGlobal (ht : t.Sound) (h : t.declareGlobal name = .ok t')
    (other : String) :
    t'.binding? other =
      if other = name then
        match t.binding? name with
        | none => some .undefined
        | some .localOnly => some .global
        | some b => some b
      else t.binding? other := by
  unfold SymbolTable.declareGlobal at h
  cases hfound : t.get? name with
  | none =>
    have hname : t.binding? name = none := by simp [binding?, hfound]
    simp only [hfound, Except.ok.injEq] at h
    rw [← h, binding?_push, hname]
  | some found =>
    have hname : t.binding? name = some found.binding := by simp [binding?, hfound]
    rw [hname]
    simp only [hfound] at h
    split at h
    · cases h
    · cases hbinding : found.binding with
      | localOnly =>
        simp only [hbinding, if_true, Except.ok.injEq] at h
        rw [← h, binding?_bind ht hfound]
      | global | external | undefined =>
        simp only [hbinding, reduceCtorEq, if_false, Except.ok.injEq] at h
        subst h
        split
        · rename_i hother
          rw [hother, hname, hbinding]
        · rfl

theorem binding?_declareExternal (ht : t.Sound) (h : t.declareExternal name = .ok t')
    (other : String) :
    (t.binding? name ≠ some .localOnly ∧ t.binding? name ≠ some .global) ∧
      t'.binding? other = if other = name then some .external else t.binding? other := by
  unfold SymbolTable.declareExternal at h
  cases hfound : t.get? name with
  | none =>
    have hname : t.binding? name = none := by simp [binding?, hfound]
    simp only [hfound, Except.ok.injEq] at h
    rw [← h, binding?_push, hname]
    simp
  | some found =>
    have hname : t.binding? name = some found.binding := by simp [binding?, hfound]
    rw [hname]
    simp only [hfound] at h
    split at h
    · cases h
    · cases hbinding : found.binding with
      | localOnly | global => simp [hbinding] at h
      | external | undefined =>
        simp only [hbinding, Except.ok.injEq] at h
        exact ⟨by simp, h ▸ binding?_bind ht hfound⟩

structure Rebinds (globals externals : List String) (t t' : SymbolTable) : Prop where
  localOnly : ∀ name, t'.binding? name = some .localOnly ↔
    t.binding? name = some .localOnly ∧ name ∉ globals
  global : ∀ name, t'.binding? name = some .global ↔
    t.binding? name = some .global ∨ t.binding? name = some .localOnly ∧ name ∈ globals
  external : ∀ name, t'.binding? name = some .external ↔
    t.binding? name = some .external ∨ name ∈ externals

namespace Rebinds

theorem refl (t : SymbolTable) : Rebinds [] [] t t where
  localOnly _ := by simp
  global _ := by simp
  external _ := by simp

theorem trans (h : Rebinds globals externals t t') (h' : Rebinds globals' externals' t' t'') :
    Rebinds (globals ++ globals') (externals ++ externals') t t'' where
  localOnly name := by
    rw [h'.localOnly, h.localOnly, List.mem_append, not_or, and_assoc]
  global name := by
    rw [h'.global, h.global, h.localOnly, List.mem_append]
    by_cases hname : name ∈ globals <;> simp [hname]
  external name := by
    rw [h'.external, h.external, List.mem_append, or_assoc]

theorem declareGlobal (ht : t.Sound) (h : t.declareGlobal name = .ok t') :
    Rebinds [name] [] t t' := by
  have hbinding := binding?_declareGlobal ht h
  refine ⟨fun other => ?_, fun other => ?_, fun other => ?_⟩
  all_goals
    rw [hbinding other]
    by_cases hother : other = name
    · subst hother
      cases t.binding? other with
      | none => simp
      | some b => cases b <;> simp
    · simp [hother]

theorem declareExternal (ht : t.Sound) (h : t.declareExternal name = .ok t') :
    Rebinds [] [name] t t' := by
  have hbinding (other : String) := (binding?_declareExternal ht h other).2
  obtain ⟨hlocal, hglobal⟩ := (binding?_declareExternal ht h name).1
  refine ⟨fun other => ?_, fun other => ?_, fun other => ?_⟩
  all_goals
    rw [hbinding other]
    by_cases hother : other = name
    · subst hother
      simp [hlocal, hglobal]
    · simp [hother]

theorem foldlM {f : SymbolTable → String → Except AssemblyError SymbolTable}
    {g e : String → List String}
    (hf : ∀ t name t', Describes s t → f t name = .ok t' →
      Describes s t' ∧ Rebinds (g name) (e name) t t')
    {names : List String} (hs : Describes s t) (h : names.foldlM f t = .ok t') :
    Rebinds (names.flatMap g) (names.flatMap e) t t' := by
  induction names generalizing t with
  | nil =>
    cases h
    exact refl _
  | cons name rest ih =>
    rw [List.foldlM_cons] at h
    obtain ⟨t₁, hname, hrest⟩ := bind_eq_ok.mp h
    obtain ⟨hs₁, hrebinds⟩ := hf t name t₁ hs hname
    exact hrebinds.trans (ih hs₁ hrest)

theorem declare {st : Statement} (hs : Describes s t) (h : t.declare st = .ok t') :
    Rebinds st.globals st.externals t t' := by
  have hnone (names : List String) : names.flatMap (fun _ => ([] : List String)) = [] := by simp
  cases st with
  | global names =>
    have hrebinds := foldlM (g := fun name => [name]) (e := fun _ => [])
      (fun _ _ _ hs h => ⟨hs.declareGlobal h, declareGlobal hs.sound h⟩) hs h
    simpa [hnone, Statement.globals, Statement.externals] using hrebinds
  | external names =>
    have hrebinds := foldlM (g := fun _ => []) (e := fun name => [name])
      (fun _ _ _ hs h => ⟨hs.declareExternal h, declareExternal hs.sound h⟩) hs h
    simpa [hnone, Statement.globals, Statement.externals] using hrebinds
  | openSection name | words values | skip n | finish | operation op =>
    cases h
    exact refl _

/-- The directives of a whole program. -/
theorem declareAll {program : Program} (hs : Describes s t) (h : t.declareAll program = .ok t') :
    Rebinds program.globals program.externals t t' := by
  induction program generalizing t with
  | nil =>
    cases h
    exact refl _
  | cons n rest ih =>
    rw [SymbolTable.declareAll] at h
    rw [Program.globals_cons, Program.externals_cons]
    split at h
    · rename_i hnone
      rw [hnone]
      exact ih hs h
    · rename_i st hst
      split at h
      · cases h
      · rename_i t₁ hdeclare
        rw [hst]
        exact (declare hs hdeclare).trans (ih (hs.declare hdeclare) h)

end Rebinds

theorem localOnly_symbols {s : Survey} : ∀ e ∈ s.symbols.entries, e.binding = .localOnly := by
  have hfoldl {α : Type} (as : List α) (f : SymbolTable → α → SymbolTable)
      (hf : ∀ t a, (∀ e ∈ t.entries, e.binding = .localOnly) →
        ∀ e ∈ (f t a).entries, e.binding = .localOnly) (t : SymbolTable)
      (ht : ∀ e ∈ t.entries, e.binding = .localOnly) :
      ∀ e ∈ (as.foldl f t).entries, e.binding = .localOnly := by
    induction as generalizing t with
    | nil => exact ht
    | cons a rest ih => exact ih _ (hf t a ht)
  have hpush (t : SymbolTable) (ht : ∀ e ∈ t.entries, e.binding = .localOnly) (name : String)
      (value : Word) (kind : SymbolKind) (owner : Option Nat) :
      ∀ e ∈ (t.push name value kind owner .localOnly).entries, e.binding = .localOnly := by
    intro e he
    rcases mem_push.mp he with he | rfl
    · exact ht e he
    · rfl
  exact hfoldl _ _ (fun t l ht => hpush t ht _ _ _ _) _
    (hfoldl _ _ (fun t c ht => hpush t ht _ _ _ _) _ (by rintro _ ⟨⟩))

variable {program : Program}

/-- A name is bound external exactly if the program declares it so. -/
theorem binding?_eq_external_iff (hs : s.Sound) (h : s.symbols.declareAll program = .ok t) :
    t.binding? name = some .external ↔ name ∈ program.externals := by
  have hdescribes := describes_symbols hs
  have hinitial : s.symbols.binding? name ≠ some .external := by
    intro hbinding
    obtain ⟨e, hget, hbinding⟩ := Option.map_eq_some_iff.mp hbinding
    have hlocal := localOnly_symbols e ((get?_eq_some_iff hdescribes.sound).mp hget).1
    rw [hlocal] at hbinding
    cases hbinding
  simpa [hinitial] using (Rebinds.declareAll hdescribes h).external name

theorem external_iff (hs : s.Sound) (h : s.symbols.declareAll program = .ok t)
    (he : e ∈ t.entries) : e.binding = .external ↔ e.name ∈ program.externals := by
  have ht := (describes_symbols hs).declareAll h
  rw [← binding?_eq_external_iff hs h, binding?_of_mem ht.sound he, Option.some.injEq]

/-- The symbol of a label is global exactly if the program declares it so. -/
theorem global_iff (hs : s.Sound) (h : s.symbols.declareAll program = .ok t) {l : Label}
    (hl : l ∈ s.labels) (he : e ∈ t.entries) (hname : e.name = l.name) :
    e.binding = .global ↔ e.name ∈ program.globals := by
  have hdescribes := describes_symbols hs
  have ht := hdescribes.declareAll h
  obtain ⟨e₀, he₀, hlabel⟩ := hdescribes.labels l hl
  have hinitial : s.symbols.binding? e.name = some .localOnly := by
    rw [hname, ← hlabel.name, binding?_of_mem hdescribes.sound he₀, localOnly_symbols e₀ he₀]
  have hiff := (Rebinds.declareAll hdescribes h).global e.name
  rw [binding?_of_mem ht.sound he, hinitial] at hiff
  simpa using hiff

theorem names_push {value : Word} {kind : SymbolKind} {owner : Option Nat} :
    (t.push name value kind owner binding).entries.map (·.name) =
      t.entries.map (·.name) ++ [name] := by
  rw [entries_push, List.map_append]
  rfl

theorem names_bind (h : t.get? name = some found) (binding : Binding) :
    (t.bind name binding).entries.map (·.name) = t.entries.map (·.name) := by
  rw [entries_bind h, List.map_map]
  exact List.map_congr_left fun e _ => name_rebound ..

/-- A directive mentions a name: a new one gets an entry, and a known one at most a new binding. -/
theorem names_of_mention
    (hnew : t.get? name = none → t'.entries.map (·.name) = t.entries.map (·.name) ++ [name])
    (hknown : ∀ found, t.get? name = some found →
      t'.entries.map (·.name) = t.entries.map (·.name)) :
    t'.entries.map (·.name) = mentionOne (t.entries.map (·.name)) name := by
  unfold mentionOne
  cases hfound : t.get? name with
  | none =>
    rw [if_neg (get?_eq_none_iff.mp hfound)]
    exact hnew hfound
  | some found =>
    rw [if_pos (by_contra fun hname => by simp [get?_eq_none_iff.mpr hname] at hfound)]
    exact hknown found hfound

theorem names_declareGlobal (h : t.declareGlobal name = .ok t') :
    t'.entries.map (·.name) = mentionOne (t.entries.map (·.name)) name := by
  unfold SymbolTable.declareGlobal at h
  refine names_of_mention (fun hnone => ?_) fun found hfound => ?_
  · simp only [hnone, Except.ok.injEq] at h
    rw [← h, names_push]
  · simp only [hfound] at h
    split at h
    · cases h
    split at h
    · cases h
      exact names_bind hfound _
    · cases h
      rfl

theorem names_declareExternal (h : t.declareExternal name = .ok t') :
    t'.entries.map (·.name) = mentionOne (t.entries.map (·.name)) name := by
  unfold SymbolTable.declareExternal at h
  refine names_of_mention (fun hnone => ?_) fun found hfound => ?_
  · simp only [hnone, Except.ok.injEq] at h
    rw [← h, names_push]
  · simp only [hfound] at h
    split at h
    · cases h
    split at h
    · cases h
    · cases h
    all_goals
      cases h
      exact names_bind hfound _

theorem names_foldlM {f : SymbolTable → String → Except AssemblyError SymbolTable}
    (hf : ∀ t name t', f t name = .ok t' →
      t'.entries.map (·.name) = mentionOne (t.entries.map (·.name)) name)
    {names : List String} (h : names.foldlM f t = .ok t') :
    t'.entries.map (·.name) = mention (t.entries.map (·.name)) names := by
  induction names generalizing t with
  | nil =>
    cases h
    rfl
  | cons name rest ih =>
    rw [List.foldlM_cons] at h
    obtain ⟨t₁, hname, hrest⟩ := bind_eq_ok.mp h
    rw [ih hrest, hf t name t₁ hname]
    rfl

theorem names_declare {st : Statement} (h : t.declare st = .ok t') :
    t'.entries.map (·.name) = mention (t.entries.map (·.name)) st.declared := by
  cases st with
  | global names =>
    have hdeclared : (Statement.global names).declared = names := List.append_nil names
    rw [hdeclared]
    exact names_foldlM (fun _ _ _ => names_declareGlobal) h
  | external names => exact names_foldlM (fun _ _ _ => names_declareExternal) h
  | openSection name | words values | skip n | finish | operation op =>
    cases h
    rfl

theorem names_declareAll (h : t.declareAll program = .ok t') :
    t'.entries.map (·.name) = mention (t.entries.map (·.name)) program.declared := by
  induction program generalizing t with
  | nil =>
    cases h
    rfl
  | cons n rest ih =>
    rw [SymbolTable.declareAll] at h
    rw [Program.declared_cons, mention_append]
    split at h
    · rename_i hnone
      rw [hnone]
      exact ih h
    · rename_i st hst
      split at h
      · cases h
      · rename_i t₁ hdeclare
        rw [ih h, names_declare hdeclare, hst]
        rfl

theorem names_foldl_push {α : Type} {f : SymbolTable → α → SymbolTable} {g : α → String}
    (hf : ∀ t a, (f t a).entries.map (·.name) = t.entries.map (·.name) ++ [g a])
    (as : List α) (t : SymbolTable) :
    (as.foldl f t).entries.map (·.name) = t.entries.map (·.name) ++ as.map g := by
  induction as generalizing t with
  | nil => simp
  | cons a rest ih =>
    rw [List.foldl_cons, ih, hf, List.append_assoc]
    rfl

/-- A survey enters its sections and then its labels. -/
theorem names_symbols (s : Survey) :
    s.symbols.entries.map (·.name) = s.locations.names ++ s.labels.map (·.name) := by
  refine (names_foldl_push (g := Label.name) (fun _ _ => names_push) _ _).trans ?_
  rw [names_foldl_push (g := Prod.fst) fun _ _ => names_push]
  rfl

/-- Behind the sections and the labels stand the names that are only declared, each of them where it
is declared first. -/
theorem names_of_declareAll (h : s.symbols.declareAll program = .ok t) :
    let known := s.locations.names ++ s.labels.map (·.name)
    t.entries.map (·.name) = known ++ (program.declared.filter (· ∉ known)).eraseDups := by
  rw [names_declareAll h, names_symbols, mention_eq]

/-- The names of a table are those of its sections and labels and the declared ones. -/
theorem mem_names_iff_known (h : s.symbols.declareAll program = .ok t) :
    name ∈ t.entries.map (·.name) ↔ name ∈ s.locations.names ∨ name ∈ s.labels.map (·.name) ∨
      name ∈ program.globals ∨ name ∈ program.externals := by
  rw [names_declareAll h, mem_mention, names_symbols, List.mem_append, Program.mem_declared,
    or_assoc]

end SymbolTable

end Toolchain32
