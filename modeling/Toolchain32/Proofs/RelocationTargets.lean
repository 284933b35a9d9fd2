import Toolchain32.Proofs.SymbolTables

/-!
# What a relocation record refers to

A record reaches a section, or a label that is local, through the section; any other symbol through
its own name. `relocation_eq_ok` says that a record of a sound table tells its place, its name and
the symbol of that name, and nothing else.
-/

namespace Toolchain32

inductive Relocation.Targets (symbols : List ObjectSymbol) (e : ObjectSymbol) (r : Relocation) :
    Prop
  | ofSection (isSection : e.kind = .ofSection) (kind : r.kind = .sectionRelative)
      (symbol : r.symbol = e.name) (addend : r.addend = 0)
  | ofLocal (o : ObjectSymbol) (isPlain : e.kind = .plain) (isLocal : e.binding = .localOnly)
      (owner : symbols.find? (·.id == e.owner) = some o) (kind : r.kind = .sectionRelative)
      (symbol : r.symbol = o.name) (addend : r.addend = e.value)
  | ofNamed (isPlain : e.kind = .plain) (isShared : e.binding = .global ∨ e.binding = .external)
      (kind : r.kind = .absolute) (symbol : r.symbol = e.name) (addend : r.addend = 0)

namespace SymbolTable

variable {t : SymbolTable} {name : String} {offset : Word} {r : Relocation}

/-- What a record says of the reference that it is made for. -/
theorem relocation_eq_ok (ht : t.Sound) (h : t.relocation name offset = .ok r) :
    r.offset = offset ∧ r.origin = name ∧
      ∃ e ∈ t.entries, e.name = name ∧ r.Targets t.toList e := by
  unfold relocation at h
  cases hget : t.get? name with
  | none => simp [hget] at h
  | some e =>
    obtain ⟨he, hname⟩ := (get?_eq_some_iff ht).mp hget
    simp only [hget] at h
    suffices hrecord : r.offset = offset ∧ r.origin = name ∧ r.Targets t.toList e from
      ⟨hrecord.1, hrecord.2.1, e, he, hname, hrecord.2.2⟩
    cases hkind : e.kind with
    | ofSection =>
      simp only [hkind, if_true, Except.ok.injEq] at h
      subst h
      exact ⟨rfl, rfl, .ofSection hkind rfl rfl rfl⟩
    | plain =>
      simp only [hkind, reduceCtorEq, if_false] at h
      cases hbinding : e.binding with
      | localOnly =>
        simp only [hbinding] at h
        split at h
        · rename_i o ho
          cases h
          exact ⟨rfl, rfl, .ofLocal o hkind hbinding (find?_id_of_byId? ht ho) rfl rfl rfl⟩
        · cases h
      | global =>
        simp only [hbinding, Except.ok.injEq] at h
        subst h
        exact ⟨rfl, rfl, .ofNamed hkind (.inl hbinding) rfl rfl rfl⟩
      | external =>
        simp only [hbinding, Except.ok.injEq] at h
        subst h
        exact ⟨rfl, rfl, .ofNamed hkind (.inr hbinding) rfl rfl rfl⟩
      | undefined => simp [hbinding] at h

end SymbolTable

end Toolchain32
