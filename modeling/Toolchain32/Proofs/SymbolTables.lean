import Mathlib.Data.List.Nodup
import Toolchain32.Proofs.SurveyedLabels

/-!
# The symbol table of a source

In a sound table every entry is found by its id and by its name. `Describes` says that a sound table
has an entry for each section and each label of a survey, and beyond them only names that the source
leaves open; `describes_of_declareAll` says so of the table that a program ends up with.
-/

namespace Toolchain32

open Fallible

def Binding.isDefined : Binding → Bool
  | localOnly | global => true
  | external | undefined => false

/-- The ids of a table that are its places are so too when they are counted in words, up to 2^32
rows. -/
theorem ids_in_words {α : Type} {rows : List α} {id : α → Nat}
    (hids : ∀ (i : Nat) (a : α), rows[i]? = some a → id a = i)
    (hcount : rows.length ≤ 0x100000000) (i : Nat) (a : α) (h : rows[i]? = some a) :
    id a = (UInt32.ofNat i).toNat := by
  have hlt : i < 0x100000000 := Nat.lt_of_lt_of_le (List.getElem?_eq_some_iff.mp h).1 hcount
  rw [hids i a h, UInt32.toNat_ofNat_of_lt' hlt]

namespace SymbolTable

variable {t t' : SymbolTable} {name : String} {e : ObjectSymbol} {id : Nat} {binding : Binding}

def Indexed (t : SymbolTable) : Prop :=
  ∀ (i : Nat) (e : ObjectSymbol), t.byId? i = some e → e.id = i

structure Sound (t : SymbolTable) : Prop where
  ids : ∀ (i : Nat) (e : ObjectSymbol), t.toList[i]? = some e → e.id = i
  nodup : (t.entries.map (·.name)).Nodup

theorem Sound.indexed (ht : t.Sound) : t.Indexed := ht.ids

theorem Indexed.id_of_mem (ht : t.Indexed) (he : e ∈ t.entries) :
    e.id ≠ 0 ∧ t.byId? e.id = some e := by
  obtain ⟨i, hi⟩ := List.mem_iff_getElem?.mp he
  have hfound : t.byId? (i + 1) = some e := by rw [byId?, toList, List.getElem?_cons_succ, hi]
  have hid : e.id = i + 1 := ht _ _ hfound
  exact ⟨by omega, by rw [hid, hfound]⟩

/-- Two entries of one id are the same. -/
theorem Indexed.eq_of_id (ht : t.Indexed) {e' : ObjectSymbol} (he : e ∈ t.entries)
    (he' : e' ∈ t.entries) (h : e.id = e'.id) : e = e' := by
  have hfound := (ht.id_of_mem he).2
  rw [h, (ht.id_of_mem he').2] at hfound
  exact (Option.some.inj hfound).symm

theorem byId?_eq_some (ht : t.Sound) (h : t.byId? id = some e) : e.id = id := ht.ids id e h

theorem id_of_mem (ht : t.Sound) (he : e ∈ t.entries) : e.id ≠ 0 ∧ t.byId? e.id = some e :=
  ht.indexed.id_of_mem he

theorem find?_id_of_byId? (ht : t.Sound) (h : t.byId? id = some e) :
    t.toList.find? (·.id == id) = some e := by
  obtain ⟨hlt, hget⟩ := List.getElem?_eq_some_iff.mp h
  refine List.find?_eq_some_iff_getElem.mpr ⟨?_, id, hlt, hget, fun j hj => ?_⟩
  · simpa using byId?_eq_some ht h
  · have hid := ht.ids j _ (List.getElem?_eq_getElem (by omega))
    simp only [hid, Bool.not_eq_true', beq_eq_false_iff_ne]
    omega

/-- The entries of a sound table have different names. -/
theorem eq_of_name (ht : t.Sound) {e' : ObjectSymbol} (he : e ∈ t.entries) (he' : e' ∈ t.entries)
    (h : e.name = e'.name) : e = e' :=
  List.inj_on_of_nodup_map ht.nodup he he' h

theorem mem_of_get? (h : t.get? name = some e) : e ∈ t.entries ∧ e.name = name := by
  rw [get?_eq_find?] at h
  exact ⟨List.mem_reverse.mp (List.mem_of_find?_eq_some h), by simpa using List.find?_some h⟩

theorem Indexed.id_of_get? (ht : t.Indexed) (h : t.get? name = some e) :
    e.id ≠ 0 ∧ t.byId? e.id = some e := ht.id_of_mem (mem_of_get? h).1

theorem get?_eq_some_iff (ht : t.Sound) :
    t.get? name = some e ↔ e ∈ t.entries ∧ e.name = name := by
  constructor
  · exact mem_of_get?
  · rintro ⟨he, rfl⟩
    rw [get?_eq_find?]
    cases h : t.entries.reverse.find? (·.name == e.name) with
    | none =>
      have hnone := List.find?_eq_none.mp h e (List.mem_reverse.mpr he)
      simp at hnone
    | some found =>
      have hmem := List.mem_reverse.mp (List.mem_of_find?_eq_some h)
      have hname : found.name = e.name := by simpa using List.find?_some h
      rw [eq_of_name ht hmem he hname]

theorem get?_eq_none_iff : t.get? name = none ↔ name ∉ t.entries.map (·.name) := by
  rw [get?_eq_find?, List.find?_eq_none]
  simp

/-- An entry is the first one of its name, the reserved entry apart. -/
theorem find?_name_of_mem (ht : t.Sound) (he : e ∈ t.entries) :
    t.toList.find? (fun s => s.id != 0 && s.name == e.name) = some e := by
  have hid := (id_of_mem ht he).1
  cases h : t.toList.find? (fun s => s.id != 0 && s.name == e.name) with
  | none =>
    have hnone := List.find?_eq_none.mp h e (List.mem_cons_of_mem _ he)
    simp [hid] at hnone
  | some found =>
    have hfound := List.find?_some h
    rw [Bool.and_eq_true, bne_iff_ne, beq_iff_eq] at hfound
    rcases List.mem_cons.mp (List.mem_of_find?_eq_some h) with rfl | hmem
    · exact absurd rfl hfound.1
    · rw [eq_of_name ht hmem he hfound.2]

structure IsSection (name : String) (e : ObjectSymbol) : Prop where
  kind : e.kind = .ofSection
  name : e.name = name
  value : e.value = 0
  owner : e.owner = e.id
  binding : e.binding = .localOnly

theorem IsSection.eq (h : IsSection name e) :
    e = ⟨e.id, name, 0, .ofSection, e.id, .localOnly⟩ := by
  obtain ⟨hkind, hname, hvalue, howner, hbinding⟩ := h
  cases e
  simp_all

structure IsLabel (t : SymbolTable) (l : Label) (e : ObjectSymbol) : Prop where
  kind : e.kind = .plain
  name : e.name = l.name
  value : e.value = UInt32.ofNat l.offset
  binding : e.binding.isDefined = true
  owner : ∃ o, t.byId? e.owner = some o ∧ o.kind = .ofSection ∧ o.name = l.sectionName

structure IsOpen (e : ObjectSymbol) : Prop where
  kind : e.kind = .plain
  value : e.value = 0
  owner : e.owner = 0
  binding : e.binding.isDefined = false

/-- The table has the sections and labels of a survey, and beyond them only open names. -/
structure Describes (s : Survey) (t : SymbolTable) : Prop where
  sound : t.Sound
  sections : ∀ name ∈ s.locations.names, ∃ e ∈ t.entries, IsSection name e
  labels : ∀ l ∈ s.labels, ∃ e ∈ t.entries, IsLabel t l e
  entries : ∀ e ∈ t.entries,
    (∃ name ∈ s.locations.names, IsSection name e) ∨ (∃ l ∈ s.labels, IsLabel t l e) ∨ IsOpen e

namespace Describes

variable {s : Survey} {l : Label}

/-- The entry of a section is known by its name. -/
theorem isSection_of_name (h : Describes s t) (he : e ∈ t.entries)
    (hname : e.name ∈ s.locations.names) : IsSection e.name e := by
  obtain ⟨e', he', hsection⟩ := h.sections e.name hname
  obtain rfl := eq_of_name h.sound he he' hsection.name.symm
  exact hsection

theorem isLabel_of_name (h : Describes s t) (he : e ∈ t.entries) (hl : l ∈ s.labels)
    (hname : e.name = l.name) : IsLabel t l e := by
  obtain ⟨e', he', hlabel⟩ := h.labels l hl
  obtain rfl := eq_of_name h.sound he he' (hname.trans hlabel.name.symm)
  exact hlabel

theorem isOpen_of_name (h : Describes s t) (he : e ∈ t.entries)
    (hsection : e.name ∉ s.locations.names) (hlabel : e.name ∉ s.labels.map (·.name)) :
    IsOpen e := by
  rcases h.entries e he with ⟨name, hname, he'⟩ | ⟨l, hl, he'⟩ | hopen
  · exact absurd (he'.name ▸ hname) hsection
  · exact absurd (he'.name ▸ List.mem_map_of_mem hl) hlabel
  · exact hopen

end Describes

theorem mem_push {value : Word} {kind : SymbolKind} {owner : Option Nat} :
    e ∈ (t.push name value kind owner binding).entries ↔
      e ∈ t.entries ∨ e = t.pushed name value kind owner binding := by
  rw [entries_push, List.mem_append, List.mem_singleton]

/-- A new entry has the next place, and no other entry is moved. -/
theorem byId?_push_eq (value : Word) (kind : SymbolKind) (owner : Option Nat) :
    (t.push name value kind owner binding).byId? id =
      if id = t.nextId then some (t.pushed name value kind owner binding) else t.byId? id := by
  rw [byId?, toList_push, ← length_toList, List.getElem?_append]
  by_cases hid : id = t.toList.length
  · rw [if_neg (by omega), if_pos hid, hid, Nat.sub_self]
    rfl
  · rw [if_neg hid]
    split
    · rfl
    · rename_i hge
      have hbehind : t.byId? id = none := List.getElem?_eq_none (by omega)
      rw [hbehind, List.getElem?_eq_none]
      rw [List.length_singleton]
      omega

theorem get?_push (value : Word) (kind : SymbolKind) (owner : Option Nat) (other : String) :
    (t.push name value kind owner binding).get? other =
      if other = name then some (t.pushed name value kind owner binding) else t.get? other := by
  rw [get?_eq_find?, entries_push, List.reverse_append, List.reverse_singleton,
    List.singleton_append, List.find?_cons]
  by_cases h : other = name
  · simp [pushed, h]
  · simp [pushed, h, beq_eq_false_iff_ne.mpr (Ne.symm h), get?_eq_find?]

theorem Indexed.push (ht : t.Indexed) (value : Word) (kind : SymbolKind) (owner : Option Nat) :
    (t.push name value kind owner binding).Indexed := by
  intro i e h
  rw [byId?_push_eq] at h
  split at h
  · rename_i hi
    exact (congrArg ObjectSymbol.id (Option.some.inj h)).symm.trans hi.symm
  · exact ht i e h

theorem Sound.push (ht : t.Sound) (hname : name ∉ t.entries.map (·.name)) (value : Word)
    (kind : SymbolKind) (owner : Option Nat) : (t.push name value kind owner binding).Sound where
  ids := ht.indexed.push value kind owner
  nodup := by
    rw [entries_push, List.map_append, List.nodup_append]
    refine ⟨ht.nodup, by simp, ?_⟩
    rintro a ha b hb rfl
    obtain rfl : a = name := List.mem_singleton.mp hb
    exact hname ha

theorem byId?_push (value : Word) (kind : SymbolKind) (owner : Option Nat)
    (h : t.byId? id = some e) : (t.push name value kind owner binding).byId? id = some e := by
  have hlt : id < t.toList.length := (List.getElem?_eq_some_iff.mp h).1
  rw [length_toList] at hlt
  rw [byId?_push_eq, if_neg (by omega), h]

theorem IsLabel.push {l : Label} (h : IsLabel t l e) (value : Word) (kind : SymbolKind)
    (owner : Option Nat) : IsLabel (t.push name value kind owner binding) l e where
  kind := h.kind
  name := h.name
  value := h.value
  binding := h.binding
  owner := by
    obtain ⟨o, hid, ho⟩ := h.owner
    exact ⟨o, byId?_push value kind owner hid, ho⟩

/-- A new entry keeps what the table says of the sections and labels so far. -/
theorem Describes.entries_push {s : Survey} (h : Describes s t) (value : Word) (kind : SymbolKind)
    (owner : Option Nat) {e : ObjectSymbol} (he : e ∈ t.entries) :
    (∃ name ∈ s.locations.names, IsSection name e) ∨
      (∃ l ∈ s.labels, IsLabel (t.push name value kind owner binding) l e) ∨ IsOpen e := by
  rcases h.entries e he with hsection | ⟨l, hl, hlabel⟩ | hopen
  · exact .inl hsection
  · exact .inr (.inl ⟨l, hl, hlabel.push value kind owner⟩)
  · exact .inr (.inr hopen)

theorem Describes.pushSection {s s' : Survey} (h : Describes s t)
    (hname : name ∉ t.entries.map (·.name)) (hlabels : s'.labels = s.labels)
    (hnames : s'.locations.names = s.locations.names ++ [name]) :
    Describes s' (t.push name 0 .ofSection none .localOnly) where
  sound := h.sound.push hname ..
  sections other hother := by
    rw [hnames, List.mem_append, List.mem_singleton] at hother
    rcases hother with hother | rfl
    · obtain ⟨e, he, hsection⟩ := h.sections other hother
      exact ⟨e, mem_push.mpr (.inl he), hsection⟩
    · exact ⟨_, mem_push.mpr (.inr rfl), rfl, rfl, rfl, rfl, rfl⟩
  labels l hl := by
    obtain ⟨e, he, hlabel⟩ := h.labels l (hlabels ▸ hl)
    exact ⟨e, mem_push.mpr (.inl he), hlabel.push ..⟩
  entries e he := by
    rw [hnames, hlabels]
    rcases mem_push.mp he with he | rfl
    · exact (h.entries_push 0 .ofSection none he).imp_left fun ⟨other, hother, hsection⟩ =>
        ⟨other, List.mem_append_left _ hother, hsection⟩
    · exact .inl ⟨name, List.mem_append_right _ List.mem_cons_self, rfl, rfl, rfl, rfl, rfl⟩

theorem Describes.pushLabel {s s' : Survey} {l : Label} (h : Describes s t)
    (hname : l.name ∉ t.entries.map (·.name)) (hsection : l.sectionName ∈ s.locations.names)
    (hlabels : s'.labels = s.labels ++ [l]) (hnames : s'.locations.names = s.locations.names) :
    Describes s' (t.push l.name (UInt32.ofNat l.offset) .plain
      ((t.get? l.sectionName).map (·.id)) .localOnly) := by
  obtain ⟨o, ho, hosection⟩ := h.sections _ hsection
  have hget : t.get? l.sectionName = some o := (get?_eq_some_iff h.sound).mpr ⟨ho, hosection.name⟩
  have hid := (id_of_mem h.sound ho).2
  rw [hget]
  refine ⟨h.sound.push hname .., fun other hother => ?_, fun l' hl' => ?_, fun e he => ?_⟩
  · obtain ⟨e, he, hsection⟩ := h.sections other (hnames ▸ hother)
    exact ⟨e, mem_push.mpr (.inl he), hsection⟩
  · rw [hlabels, List.mem_append, List.mem_singleton] at hl'
    rcases hl' with hl' | rfl
    · obtain ⟨e, he, hlabel⟩ := h.labels l' hl'
      exact ⟨e, mem_push.mpr (.inl he), hlabel.push ..⟩
    · exact ⟨_, mem_push.mpr (.inr rfl), rfl, rfl, rfl, rfl, o,
        byId?_push _ _ _ hid, hosection.kind, hosection.name⟩
  · rw [hnames, hlabels]
    rcases mem_push.mp he with he | rfl
    · exact (h.entries_push _ _ _ he).imp_right fun hrest => hrest.imp_left
        fun ⟨l', hl', hlabel⟩ => ⟨l', List.mem_append_left _ hl', hlabel⟩
    · exact .inr (.inl ⟨l, List.mem_append_right _ List.mem_cons_self, rfl, rfl, rfl, rfl, o,
        byId?_push _ _ _ hid, hosection.kind, hosection.name⟩)

theorem Describes.pushOpen {s : Survey} (h : Describes s t)
    (hname : name ∉ t.entries.map (·.name)) (hopen : binding.isDefined = false) :
    Describes s (t.push name 0 .plain none binding) where
  sound := h.sound.push hname ..
  sections other hother := by
    obtain ⟨e, he, hsection⟩ := h.sections other hother
    exact ⟨e, mem_push.mpr (.inl he), hsection⟩
  labels l hl := by
    obtain ⟨e, he, hlabel⟩ := h.labels l hl
    exact ⟨e, mem_push.mpr (.inl he), hlabel.push ..⟩
  entries e he := by
    rcases mem_push.mp he with he | rfl
    · exact h.entries_push _ _ _ he
    · exact .inr (.inr ⟨rfl, rfl, rfl, hopen⟩)

theorem rebound_of_ne (h : e.id ≠ id) : rebound id binding e = e := if_neg h

theorem fields_rebound (id : Nat) (binding : Binding) (e : ObjectSymbol) :
    (rebound id binding e).id = e.id ∧ (rebound id binding e).name = e.name ∧
      (rebound id binding e).value = e.value ∧ (rebound id binding e).kind = e.kind ∧
      (rebound id binding e).owner = e.owner := by
  unfold rebound
  split <;> exact ⟨rfl, rfl, rfl, rfl, rfl⟩

variable {found : ObjectSymbol}

theorem toList_bind (ht : t.Indexed) (h : t.get? name = some found) (binding : Binding) :
    (t.bind name binding).toList = t.toList.map (rebound found.id binding) := by
  have hid := (ht.id_of_get? h).1
  rw [toList, toList, entries_bind h, List.map_cons, rebound_of_ne (Ne.symm hid)]

theorem bind_of_none (h : t.get? name = none) (binding : Binding) : t.bind name binding = t := by
  unfold bind
  split
  · rfl
  · rename_i found hfound
    cases h.symm.trans hfound

/-- The entry that a name is looked up at gets the binding, and no other entry is changed. -/
theorem byId?_bind (ht : t.Indexed) (h : t.get? name = some found) (binding : Binding) :
    (t.bind name binding).byId? id =
      if id = found.id then some { found with binding } else t.byId? id := by
  rw [byId?, toList_bind ht h, List.getElem?_map]
  change (t.byId? id).map _ = _
  split
  · rename_i hid
    rw [hid, (ht.id_of_get? h).2, Option.map_some, rebound, if_pos rfl]
  · rename_i hid
    cases he : t.byId? id with
    | none => rfl
    | some e => rw [Option.map_some, rebound_of_ne (ht id e he ▸ hid)]

theorem Indexed.bind (ht : t.Indexed) (h : t.get? name = some found) (binding : Binding) :
    (t.bind name binding).Indexed := by
  intro i e he
  rw [byId?_bind ht h] at he
  split at he
  · rename_i hi
    exact (congrArg ObjectSymbol.id (Option.some.inj he)).symm.trans hi.symm
  · exact ht i e he

theorem get?_bind (ht : t.Indexed) (h : t.get? name = some found) (binding : Binding)
    (other : String) :
    (t.bind name binding).get? other =
      if other = name then some { found with binding } else t.get? other := by
  have hget : (t.bind name binding).get? other =
      (t.get? other).map (rebound found.id binding) := by
    rw [get?_eq_find?, get?_eq_find?, entries_bind h, ← List.map_reverse, find?_map_rebound]
  rw [hget]
  split
  · rename_i hother
    rw [hother, h, Option.map_some, rebound, if_pos rfl]
  · rename_i hother
    cases he : t.get? other with
    | none => rfl
    | some e =>
      have hne : e.id ≠ found.id := by
        intro hid
        obtain rfl := ht.eq_of_id (mem_of_get? he).1 (mem_of_get? h).1 hid
        exact hother ((mem_of_get? he).2.symm.trans (mem_of_get? h).2)
      rw [Option.map_some, rebound_of_ne hne]

theorem Sound.bind (ht : t.Sound) (h : t.get? name = some found) (binding : Binding) :
    (t.bind name binding).Sound where
  ids := ht.indexed.bind h binding
  nodup := by
    rw [entries_bind h, List.map_map]
    have hnames : (·.name) ∘ rebound found.id binding = ObjectSymbol.name :=
      funext fun e => (fields_rebound _ _ e).2.1
    rw [hnames]
    exact ht.nodup

theorem IsLabel.bind {l : Label} (hlabel : IsLabel t l e) (ht : t.Sound)
    (h : t.get? name = some found) (hbinding : e.id = found.id → binding.isDefined = true) :
    IsLabel (t.bind name binding) l (rebound found.id binding e) := by
  obtain ⟨-, hname, hvalue, hkind, howner⟩ := fields_rebound found.id binding e
  refine ⟨hkind.trans hlabel.kind, hname.trans hlabel.name, hvalue.trans hlabel.value, ?_, ?_⟩
  · unfold rebound
    split
    · exact hbinding ‹_›
    · exact hlabel.binding
  · obtain ⟨o, hid, hokind, honame⟩ := hlabel.owner
    obtain ⟨-, hname', -, hkind', -⟩ := fields_rebound found.id binding o
    refine ⟨rebound found.id binding o, ?_, hkind'.trans hokind, hname'.trans honame⟩
    rw [howner, byId?, toList_bind ht.indexed h, List.getElem?_map]
    exact congrArg _ hid

/-- A symbol that is not a section may be bound anew, as long as it stays defined or open. -/
theorem Describes.bind {s : Survey} (hs : Describes s t) (h : t.get? name = some found)
    (hkind : found.kind = .plain) (hbinding : found.binding.isDefined = binding.isDefined) :
    Describes s (t.bind name binding) := by
  obtain ⟨hfound, -⟩ := (get?_eq_some_iff hs.sound).mp h
  have hsame {e : ObjectSymbol} (he : e ∈ t.entries) (hid : e.id = found.id) : e = found :=
    hs.sound.indexed.eq_of_id he hfound hid
  have hsection {other : String} {e : ObjectSymbol} (he : e ∈ t.entries)
      (hsec : IsSection other e) : rebound found.id binding e = e := by
    refine rebound_of_ne fun hid => ?_
    rw [← hsame he hid, hsec.kind] at hkind
    cases hkind
  have hlabel {l : Label} {e : ObjectSymbol} (he : e ∈ t.entries) (hl : IsLabel t l e) :
      IsLabel (t.bind name binding) l (rebound found.id binding e) :=
    hl.bind hs.sound h fun hid => by rw [← hbinding, ← hsame he hid, hl.binding]
  have hmem {e : ObjectSymbol} (he : e ∈ t.entries) :
      rebound found.id binding e ∈ (t.bind name binding).entries :=
    entries_bind h binding ▸ List.mem_map_of_mem he
  refine ⟨hs.sound.bind h binding, fun other hother => ?_, fun l hl => ?_, fun e he => ?_⟩
  · obtain ⟨e, he, hsec⟩ := hs.sections other hother
    exact ⟨e, hsection he hsec ▸ hmem he, hsec⟩
  · obtain ⟨e, he, hl'⟩ := hs.labels l hl
    exact ⟨_, hmem he, hlabel he hl'⟩
  · rw [entries_bind h, List.mem_map] at he
    obtain ⟨e, he, rfl⟩ := he
    rcases hs.entries e he with ⟨other, hother, hsec⟩ | ⟨l, hl, hl'⟩ | hopen
    · exact .inl ⟨other, hother, (hsection he hsec).symm ▸ hsec⟩
    · exact .inr (.inl ⟨l, hl, hlabel he hl'⟩)
    · refine .inr (.inr ?_)
      obtain ⟨-, -, hvalue, hkind', howner⟩ := fields_rebound found.id binding e
      refine ⟨hkind'.trans hopen.kind, hvalue.trans hopen.value, howner.trans hopen.owner, ?_⟩
      unfold rebound
      split
      · rename_i hid
        rw [← hbinding, ← hsame he hid, hopen.binding]
      · exact hopen.binding

theorem Describes.declareGlobal {s : Survey} (hs : Describes s t)
    (h : t.declareGlobal name = .ok t') : Describes s t' := by
  unfold SymbolTable.declareGlobal at h
  cases hfound : t.get? name with
  | none =>
    simp only [hfound, Except.ok.injEq] at h
    exact h ▸ hs.pushOpen (get?_eq_none_iff.mp hfound) rfl
  | some found =>
    simp only [hfound] at h
    cases hkind : found.kind with
    | ofSection => simp [hkind] at h
    | plain =>
      cases hbinding : found.binding with
      | localOnly =>
        simp only [hkind, hbinding, reduceCtorEq, if_false, if_true, Except.ok.injEq] at h
        exact h ▸ hs.bind hfound hkind ((congrArg Binding.isDefined hbinding).trans rfl)
      | global | external | undefined =>
        simp only [hkind, hbinding, reduceCtorEq, if_false, Except.ok.injEq] at h
        exact h ▸ hs

theorem Describes.declareExternal {s : Survey} (hs : Describes s t)
    (h : t.declareExternal name = .ok t') : Describes s t' := by
  unfold SymbolTable.declareExternal at h
  cases hfound : t.get? name with
  | none =>
    simp only [hfound, Except.ok.injEq] at h
    exact h ▸ hs.pushOpen (get?_eq_none_iff.mp hfound) rfl
  | some found =>
    simp only [hfound] at h
    cases hkind : found.kind with
    | ofSection => simp [hkind] at h
    | plain =>
      cases hbinding : found.binding with
      | localOnly | global => simp [hkind, hbinding] at h
      | external | undefined =>
        simp only [hkind, hbinding, reduceCtorEq, if_false, Except.ok.injEq] at h
        exact h ▸ hs.bind hfound hkind ((congrArg Binding.isDefined hbinding).trans rfl)

theorem Describes.declare {s : Survey} {st : Statement} (hs : Describes s t)
    (h : t.declare st = .ok t') : Describes s t' := by
  cases st with
  | global names => exact foldlM_preserves (fun _ _ _ _ hs h => hs.declareGlobal h) hs h
  | external names => exact foldlM_preserves (fun _ _ _ _ hs h => hs.declareExternal h) hs h
  | openSection name | words values | skip n | finish | operation op =>
    cases h
    exact hs

/-- What every statement of a program keeps, the program keeps. -/
theorem declareAll_preserves {P : SymbolTable → Prop} {program : Program}
    (hdeclare : ∀ n ∈ program, ∀ s ∈ n.line.statement, ∀ t t' : SymbolTable, P t →
      t.declare s = .ok t' → P t') (ht : P t) (h : t.declareAll program = .ok t') : P t' := by
  induction program generalizing t with
  | nil =>
    cases h
    exact ht
  | cons n rest ih =>
    have hrest : ∀ t : SymbolTable, P t → t.declareAll rest = .ok t' → P t' :=
      fun t => ih fun m hm => hdeclare m (List.mem_cons_of_mem _ hm)
    rw [SymbolTable.declareAll] at h
    split at h
    · exact hrest t ht h
    · rename_i s hs
      split at h
      · cases h
      · rename_i t₁ hfirst
        exact hrest t₁ (hdeclare n List.mem_cons_self s hs t t₁ ht hfirst) h

theorem Describes.declareAll {s : Survey} {program : Program} (hs : Describes s t)
    (h : t.declareAll program = .ok t') : Describes s t' :=
  declareAll_preserves (fun _ _ _ _ _ _ hs h => hs.declare h) hs h

theorem indexed_empty : empty.Indexed := by
  intro i e h
  match i with
  | 0 =>
    cases h
    rfl
  | _ + 1 => cases h

theorem describes_empty (current : Option String) : Describes ⟨⟨[], current⟩, []⟩ .empty where
  sound := ⟨indexed_empty, List.nodup_nil⟩
  sections := by rintro _ ⟨⟩
  labels := by rintro _ ⟨⟩
  entries := by rintro _ ⟨⟩

/-- The sections are entered one after the other. -/
theorem describes_foldl_sections {current : Option String} (done rest : List (String × Nat))
    (h : Describes ⟨⟨done, current⟩, []⟩ t) (hnames : t.entries.map (·.name) = done.map (·.1))
    (hnodup : ((done ++ rest).map (·.1)).Nodup) :
    let t' := rest.foldl (fun t c => t.push c.1 0 .ofSection none .localOnly) t
    Describes ⟨⟨done ++ rest, current⟩, []⟩ t' ∧
      t'.entries.map (·.name) = (done ++ rest).map (·.1) := by
  induction rest generalizing done t with
  | nil => simpa using ⟨h, hnames⟩
  | cons c rest ih =>
    have hsplit : done ++ c :: rest = (done ++ [c]) ++ rest := by simp
    have hfresh : c.1 ∉ t.entries.map (·.name) := by
      rw [List.map_append, List.nodup_append] at hnodup
      rw [hnames]
      exact fun hmem => hnodup.2.2 _ hmem _ List.mem_cons_self rfl
    rw [hsplit] at hnodup ⊢
    refine ih (done ++ [c]) (h.pushSection hfresh rfl ?_) ?_ hnodup
    · simp [Locations.names]
    · simp [entries_push, hnames, pushed]

/-- Then the labels are, each of them in a section that is there. -/
theorem describes_foldl_labels {locations : Locations} (done rest : List Label)
    (h : Describes ⟨locations, done⟩ t)
    (hnames : t.entries.map (·.name) = locations.names ++ done.map (·.name))
    (hnodup : (locations.names ++ (done ++ rest).map (·.name)).Nodup)
    (hopened : ∀ l ∈ rest, l.sectionName ∈ locations.names) :
    Describes ⟨locations, done ++ rest⟩ (rest.foldl (fun t l =>
      t.push l.name (UInt32.ofNat l.offset) .plain ((t.get? l.sectionName).map (·.id)) .localOnly)
      t) := by
  induction rest generalizing done t with
  | nil => simpa using h
  | cons l rest ih =>
    have hsplit : done ++ l :: rest = (done ++ [l]) ++ rest := by simp
    have hfresh : l.name ∉ t.entries.map (·.name) := by
      rw [List.map_append, ← List.append_assoc, List.nodup_append] at hnodup
      rw [hnames]
      exact fun hmem => hnodup.2.2 _ hmem _ List.mem_cons_self rfl
    have hsection := hopened l List.mem_cons_self
    rw [hsplit] at hnodup ⊢
    refine ih (done ++ [l]) (h.pushLabel hfresh hsection rfl rfl) ?_ hnodup fun l hl =>
      hopened l (List.mem_cons_of_mem _ hl)
    simp [entries_push, hnames, pushed]

theorem describes_symbols {s : Survey} (hs : s.Sound) : Describes s s.symbols := by
  have hsections := describes_foldl_sections [] s.locations.counters
    (describes_empty s.locations.current) rfl hs.locations.nodup
  refine describes_foldl_labels [] s.labels hsections.1 ?_ ?_ hs.opened
  · simpa [Locations.names] using hsections.2
  · refine List.nodup_append.mpr ⟨hs.locations.nodup, hs.nodup, ?_⟩
    rintro a ha b hb rfl
    obtain ⟨l, hl, rfl⟩ := List.mem_map.mp hb
    exact hs.apart l hl ha

/-- The table that a program ends up with. -/
theorem describes_of_declareAll {s : Survey} {program : Program} (hs : s.Sound)
    (h : s.symbols.declareAll program = .ok t) : Describes s t :=
  (describes_symbols hs).declareAll h

end SymbolTable

end Toolchain32
