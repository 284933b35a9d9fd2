import Toolchain32.Proofs.AcceptedDirectives
import Toolchain32.Proofs.SectionLines

/-!
# What a symbol table says

Apart from ids and the order of its entries, a symbol table is told by the views of its symbols,
where the owner of a symbol is given by name. The views of a source are known from its sections, its
labels and its declared names (`mem_views_iff`), and tables with the same views give the same
relocation records (`relocation_congr`).
-/

namespace Toolchain32

open Fallible

structure SymbolView where
  name : String
  kind : SymbolKind
  value : Word
  binding : Binding
  /-- The name of the owning symbol. -/
  owner : Option String
  deriving DecidableEq, Repr

def ObjectSymbol.viewIn (symbols : List ObjectSymbol) (e : ObjectSymbol) : SymbolView where
  name := e.name
  kind := e.kind
  value := e.value
  binding := e.binding
  owner := (symbols.find? (·.id == e.owner)).map (·.name)

inductive Survey.Shows (s : Survey) (program : Program) : SymbolView → Prop
  | ofSection (name : String) (opened : name ∈ s.locations.names) :
    Shows s program ⟨name, .ofSection, 0, .localOnly, some name⟩
  | ofLabel (l : Label) (defined : l ∈ s.labels) (binding : Binding)
    (isDefined : binding.isDefined = true)
    (isGlobal : binding = .global ↔ l.name ∈ program.globals) :
    Shows s program ⟨l.name, .plain, UInt32.ofNat l.offset, binding, some l.sectionName⟩
  | ofOpen (name : String) (declared : name ∈ program.globals ∨ name ∈ program.externals)
    (notOpened : name ∉ s.locations.names) (notDefined : name ∉ s.labels.map (·.name))
    (binding : Binding) (isOpen : binding.isDefined = false)
    (isExternal : binding = .external ↔ name ∈ program.externals) :
    Shows s program ⟨name, .plain, 0, binding, some ""⟩

theorem Binding.eq_of_isDefined {b b' : Binding} (h : b.isDefined = true) (h' : b'.isDefined = true)
    (hglobal : b = .global ↔ b' = .global) : b = b' := by
  cases b <;> cases b' <;> simp_all [isDefined]

theorem Binding.eq_of_isOpen {b b' : Binding} (h : b.isDefined = false) (h' : b'.isDefined = false)
    (hexternal : b = .external ↔ b' = .external) : b = b' := by
  cases b <;> cases b' <;> simp_all [isDefined]

namespace SymbolTable

variable {s : Survey} {t t' : SymbolTable} {e : ObjectSymbol} {name : String} {program : Program}

def views (t : SymbolTable) : List SymbolView := t.entries.map (·.viewIn t.toList)

/-- In a sound table, an id is the place of its symbol. -/
theorem byId?_eq_find? (ht : t.Sound) (id : Nat) :
    t.byId? id = t.toList.find? (·.id == id) := by
  cases hfind : t.toList.find? (·.id == id) with
  | some e =>
    obtain ⟨i, hi⟩ := List.mem_iff_getElem?.mp (List.mem_of_find?_eq_some hfind)
    have hid : e.id = id := by simpa using List.find?_some hfind
    rw [byId?, ← hid, ht.ids i e hi, hi]
  | none =>
    cases hbyId : t.byId? id with
    | none => rfl
    | some e => exact absurd (find?_id_of_byId? ht hbyId) (by simp [hfind])

theorem viewIn_eq (ht : t.Sound) (e : ObjectSymbol) : e.viewIn t.toList =
    ⟨e.name, e.kind, e.value, e.binding, (t.byId? e.owner).map (·.name)⟩ := by
  rw [byId?_eq_find? ht]
  rfl

theorem IsSection.viewIn (h : IsSection name e) (ht : t.Sound) (he : e ∈ t.entries) :
    e.viewIn t.toList = ⟨name, .ofSection, 0, .localOnly, some name⟩ := by
  rw [viewIn_eq ht, h.owner, (id_of_mem ht he).2, h.name, h.kind, h.value, h.binding,
    Option.map_some, h.name]

theorem IsLabel.viewIn {l : Label} (h : IsLabel t l e) (ht : t.Sound) :
    e.viewIn t.toList =
      ⟨l.name, .plain, UInt32.ofNat l.offset, e.binding, some l.sectionName⟩ := by
  obtain ⟨o, ho, -, hname⟩ := h.owner
  rw [viewIn_eq ht, ho, h.name, h.kind, h.value, Option.map_some, hname]

theorem IsOpen.viewIn (h : IsOpen e) (ht : t.Sound) :
    e.viewIn t.toList = ⟨e.name, .plain, 0, e.binding, some ""⟩ := by
  rw [viewIn_eq ht, h.owner, h.kind, h.value]
  rfl

theorem shows_viewIn (hs : s.Sound) (h : s.symbols.declareAll program = .ok t)
    (he : e ∈ t.entries) : s.Shows program (e.viewIn t.toList) := by
  have ht := describes_of_declareAll hs h
  have hname : e.name ∈ t.entries.map (·.name) := List.mem_map_of_mem he
  rcases ht.entries e he with ⟨name, hopened, hentry⟩ | ⟨l, hl, hentry⟩ | hentry
  · rw [hentry.viewIn ht.sound he]
    exact .ofSection name hopened
  · rw [hentry.viewIn ht.sound]
    have hglobal := global_iff hs h hl he hentry.name
    exact .ofLabel l hl e.binding hentry.binding (hentry.name ▸ hglobal)
  · rw [hentry.viewIn ht.sound]
    have hsection : e.name ∉ s.locations.names := by
      rw [ht.mem_names_iff he, hentry.kind]
      exact nofun
    have hlabel : e.name ∉ s.labels.map (·.name) := by
      rw [ht.mem_labels_iff he, hentry.binding]
      exact fun hdefined => nomatch hdefined.2
    have hknown := (mem_names_iff_known h).mp hname
    simp only [hsection, hlabel, false_or] at hknown
    exact .ofOpen e.name hknown hsection hlabel e.binding hentry.binding (external_iff hs h he)

theorem exists_of_shows (hs : s.Sound) (h : s.symbols.declareAll program = .ok t)
    {v : SymbolView} (hv : s.Shows program v) : ∃ e ∈ t.entries, e.viewIn t.toList = v := by
  have ht := describes_of_declareAll hs h
  cases hv with
  | ofSection name hopened =>
    obtain ⟨e, he, hentry⟩ := ht.sections name hopened
    exact ⟨e, he, hentry.viewIn ht.sound he⟩
  | ofLabel l hl binding hdefined hglobal =>
    obtain ⟨e, he, hentry⟩ := ht.labels l hl
    have hsame := global_iff hs h hl he hentry.name
    rw [hentry.name] at hsame
    refine ⟨e, he, ?_⟩
    rw [hentry.viewIn ht.sound,
      Binding.eq_of_isDefined hentry.binding hdefined (hsame.trans hglobal.symm)]
  | ofOpen name hdeclared hsection hlabel binding hopen hexternal =>
    have hname := (mem_names_iff_known h).mpr (.inr (.inr hdeclared))
    obtain ⟨e, he, rfl⟩ := List.mem_map.mp hname
    rcases ht.entries e he with ⟨_, hopened, hentry⟩ | ⟨l, hl, hentry⟩ | hentry
    · exact absurd (hentry.name ▸ hopened) hsection
    · exact absurd (hentry.name ▸ List.mem_map_of_mem hl) hlabel
    · refine ⟨e, he, ?_⟩
      rw [hentry.viewIn ht.sound, Binding.eq_of_isOpen hentry.binding hopen
        ((external_iff hs h he).trans hexternal.symm)]

theorem mem_views_iff (hs : s.Sound) (h : s.symbols.declareAll program = .ok t)
    (v : SymbolView) : v ∈ t.views ↔ s.Shows program v := by
  rw [views, List.mem_map]
  constructor
  · rintro ⟨e, he, rfl⟩
    exact shows_viewIn hs h he
  · exact exists_of_shows hs h

theorem nodup_views (ht : t.Sound) : t.views.Nodup := by
  have hnames : t.views.map (·.name) = t.entries.map (·.name) := by
    rw [views, List.map_map]
    rfl
  exact List.Nodup.of_map (·.name) (hnames ▸ ht.nodup)

theorem exists_same_view (hviews : t.views.Perm t'.views) (he : e ∈ t.entries) :
    ∃ e' ∈ t'.entries, e'.viewIn t'.toList = e.viewIn t.toList :=
  List.mem_map.mp (hviews.subset (List.mem_map_of_mem he))

theorem get?_eq_none_of_views (hviews : t.views.Perm t'.views) (h : t.get? name = none) :
    t'.get? name = none := by
  rw [get?_eq_none_iff] at h ⊢
  intro hname
  obtain ⟨e', he', rfl⟩ := List.mem_map.mp hname
  obtain ⟨e, he, hview⟩ := exists_same_view hviews.symm he'
  exact h (List.mem_map.mpr ⟨e, he, congrArg SymbolView.name hview⟩)

variable (ht : t.Sound) (ht' : t'.Sound) (hviews : t.views.Perm t'.views)

include ht ht' hviews

/-- A relocation record tells nothing but the view of its symbol. -/
theorem relocation_congr : t.relocation = t'.relocation := by
  funext name offset
  cases hget : t.get? name with
  | none => rw [relocation, relocation, hget, get?_eq_none_of_views hviews hget]
  | some e =>
    obtain ⟨he, hname⟩ := (get?_eq_some_iff ht).mp hget
    obtain ⟨e', he', hview⟩ := exists_same_view hviews he
    rw [viewIn_eq ht, viewIn_eq ht', SymbolView.mk.injEq] at hview
    obtain ⟨hname', hkind, hvalue, hbinding, howner⟩ := hview
    have hget' : t'.get? name = some e' := (get?_eq_some_iff ht').mpr ⟨he', hname'.trans hname⟩
    rw [relocation, relocation, hget, hget']
    simp only [hname', hkind, hvalue, hbinding]
    cases hown : t.byId? e.owner with
    | none =>
      rw [hown, Option.map_none, Option.map_eq_none_iff] at howner
      rw [howner]
    | some o =>
      rw [hown, Option.map_some, Option.map_eq_some_iff] at howner
      obtain ⟨o', hown', honame⟩ := howner
      rw [hown']
      simp only [honame]

theorem slots_congr : t.slots = t'.slots := by
  have hslot : t.slot = t'.slot := by
    funext offset p
    cases p with
    | word w => rfl
    | reference name => rw [slot, slot, relocation_congr ht ht' hviews]
  funext offset pieces
  induction pieces generalizing offset with
  | nil => rfl
  | cons p rest ih => rw [slots, slots, hslot, ih]

theorem contentsAt_congr : Line.contentsAt t = Line.contentsAt t' := by
  funext offset line
  unfold Line.contentsAt
  rw [slots_congr ht ht' hviews]

end SymbolTable

end Toolchain32
