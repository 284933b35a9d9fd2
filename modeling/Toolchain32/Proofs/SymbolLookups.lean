import Toolchain32.Proofs.LinkMaps

/-!
# Looking up linked symbols

A look-up by name takes the first symbol of that name, whatever its binding, while references go to
the global one. Before the global label of a unit the table has the symbols of all regions and those
of the labels of earlier units. The look-up agrees with the references exactly if none of these has
the name: `symbol?_eq_global_iff`.
-/

namespace Toolchain32

open Translation

variable {units : List Translation} {placements : List Placement} {linked : Linked}
  {c : CarriedSymbol} {name : String} {i : Nat}

/-- What stands before a label of a unit in the table of a link, under the same name: a section of
any unit, or a label of an earlier one. -/
inductive Shadowed (units : List Translation) (i : Nat) (name : String) : Prop
  | bySection {u : Translation} (mem : u ∈ units) (named : name ∈ u.object.sectionNames)
  | byLabel {j : Nat} {w : Translation} {sectionName : String} {offset : Nat} (earlier : j < i)
      (unit : units[j]? = some w) (label : w.HasLabel name sectionName offset)

theorem find?_eq_some_iff_of_nodup {α : Type} {p : α → Bool} {before after : List α} {a : α}
    (hnodup : (before ++ a :: after).Nodup) (ha : p a = true) :
    (before ++ a :: after).find? p = some a ↔ ∀ b ∈ before, p b = false := by
  rw [List.find?_append, List.find?_cons_of_pos ha]
  constructor
  · intro h b hb
    cases hfind : before.find? p with
    | none => simpa using List.find?_eq_none.mp hfind b hb
    | some b' =>
      rw [hfind] at h
      obtain rfl := Option.some.inj h
      exact absurd List.mem_cons_self
        (List.disjoint_of_nodup_append hnodup (List.mem_of_find?_eq_some hfind))
  · intro h
    rw [List.find?_eq_none.mpr fun b hb => by simp [h b hb]]
    rfl

theorem forall₂_append_cons {α β : Type} {R : α → β → Prop} {before after : List α} {a : α}
    {bs : List β} (h : List.Forall₂ R (before ++ a :: after) bs) :
    ∃ before' b after', bs = before' ++ b :: after' ∧ List.Forall₂ R before before' ∧ R a b := by
  induction before generalizing bs with
  | nil =>
    obtain ⟨b, after', hab, -, rfl⟩ := List.forall₂_cons_left_iff.mp h
    exact ⟨[], b, after', rfl, .nil, hab⟩
  | cons c before ih =>
    obtain ⟨d, rest, hcd, hrest, rfl⟩ := List.forall₂_cons_left_iff.mp h
    obtain ⟨before', b, after', rfl, hbefore, hab⟩ := ih hrest
    exact ⟨d :: before', b, after', rfl, .cons hcd hbefore, hab⟩

/-- The symbols that are carried over are in the order of their units, and those of one unit have
different names. -/
theorem pairwise_carried (units : List Translation) : (carried units).Pairwise fun c d =>
    c.index < d.index ∨ c.index = d.index ∧ c.symbol.name ≠ d.symbol.name := by
  rw [carried, List.pairwise_flatMap]
  constructor
  · rintro ⟨u, i⟩ -
    obtain ⟨p, hp⟩ := u.exists_passes
    have hnames : (u.object.symbols.tail.map (·.name)).Nodup := by
      rw [symbols_object hp]
      exact p.describes.sound.nodup
    rw [List.pairwise_map]
    exact (List.pairwise_map.mp (hnames.sublist (List.filter_sublist.map _))).imp
      fun hne => .inr ⟨rfl, hne⟩
  · have hindices : (units.zipIdx.map (·.2)).Pairwise (· < ·) := by
      rw [List.zipIdx_map_snd]
      exact List.pairwise_lt_range'
    refine (List.pairwise_map.mp hindices).imp fun hlt c hc d hd => .inl ?_
    obtain ⟨_, -, rfl⟩ := List.mem_map.mp hc
    obtain ⟨_, -, rfl⟩ := List.mem_map.mp hd
    exact hlt

/-- The symbols of a name before the one of a unit are those of earlier units. -/
theorem before_iff_earlier {before after : List CarriedSymbol}
    (hsplit : carried units = before ++ c :: after) :
    (∃ e ∈ before, e.symbol.name = c.symbol.name) ↔
      ∃ e ∈ carried units, e.index < c.index ∧ e.symbol.name = c.symbol.name := by
  have hordered := pairwise_carried units
  rw [hsplit, List.pairwise_append, List.pairwise_cons] at hordered
  obtain ⟨-, ⟨hafter, -⟩, hbefore⟩ := hordered
  constructor
  · rintro ⟨e, he, hname⟩
    refine ⟨e, hsplit ▸ List.mem_append_left _ he, ?_, hname⟩
    exact (hbefore e he c List.mem_cons_self).resolve_right fun h => h.2 hname
  · rintro ⟨e, he, hlt, hname⟩
    rw [hsplit, List.mem_append, List.mem_cons] at he
    rcases he with he | rfl | he
    · exact ⟨e, he, hname⟩
    · omega
    · have hle := hafter e he
      omega

theorem earlier_iff_label (hlinkable : Linkable units) :
    (∃ e ∈ carried units, e.index < i ∧ e.symbol.name = name) ↔
      ∃ (j : Nat) (w : Translation) (sectionName : String) (offset : Nat), j < i ∧
        units[j]? = some w ∧ w.HasLabel name sectionName offset := by
  constructor
  · rintro ⟨e, he, hlt, rfl⟩
    obtain ⟨hunit, hkept⟩ := mem_carried.mp he
    have hsymbol : e.symbol ∈ e.unit.object.symbols :=
      List.mem_of_mem_drop (List.mem_filter.mp hkept).1
    have hdefined := hlinkable.defined e.unit (List.mem_of_getElem? hunit) e.symbol hsymbol
    obtain ⟨o, offset, -, -, hlabel, -⟩ := label_of_kept hkept hdefined
    exact ⟨e.index, e.unit, o.name, offset, hlt, hunit, hlabel⟩
  · rintro ⟨j, w, sectionName, offset, hlt, hunit, hlabel⟩
    obtain ⟨p, hp⟩ := w.exists_passes
    obtain ⟨e, he, hentry, -⟩ := symbol_of_label hp hlabel
    have hexternal : e.binding ≠ .external := fun h => by
      have hdefined := hentry.binding
      rw [h] at hdefined
      cases hdefined
    have hkept : e ∈ Merged.keptSymbols w.object := by
      rw [keptSymbols_eq, symbols_object hp]
      exact List.mem_filter.mpr ⟨he, by simp [hentry.kind, hexternal]⟩
    exact ⟨⟨w, j, e⟩, mem_carried.mpr ⟨hunit, hkept⟩, hlt, hentry.name⟩

theorem shadowed_iff (hlinkable : Linkable units) : Shadowed units i name ↔
    (∃ u ∈ units, name ∈ u.object.sectionNames) ∨
      ∃ e ∈ carried units, e.index < i ∧ e.symbol.name = name := by
  rw [earlier_iff_label hlinkable]
  constructor
  · rintro (⟨hu, hname⟩ | ⟨hlt, hunit, hlabel⟩)
    · exact .inl ⟨_, hu, hname⟩
    · exact .inr ⟨_, _, _, _, hlt, hunit, hlabel⟩
  · rintro (⟨u, hu, hname⟩ | ⟨j, w, sectionName, offset, hlt, hunit, hlabel⟩)
    · exact .bySection hu hname
    · exact .byLabel hlt hunit hlabel

theorem nodup_symbols (h : linked.HasTable units) : linked.symbols.Nodup := by
  rw [List.nodup_iff_getElem?_ne_getElem?]
  intro k l hlt hl heq
  have hfound := List.getElem?_eq_getElem hl
  have hk := h.ids k _ (heq.trans hfound)
  have hid := h.ids l _ hfound
  omega

/-- A table has one global symbol of a name. -/
theorem eq_of_global (h : linked.HasTable units) {s g : ObjectSymbol} (hs : s ∈ linked.symbols)
    (hsglobal : s.binding = .global) (hg : g ∈ linked.symbols) (hgglobal : g.binding = .global)
    (hname : s.name = g.name) : s = g :=
  List.inj_on_of_nodup_map h.globals (List.mem_filter.mpr ⟨hs, by simp [hsglobal]⟩)
    (List.mem_filter.mpr ⟨hg, by simp [hgglobal]⟩) hname

/-- Of the entries behind the reserved one, a look-up asks for the name only. -/
theorem matches_iff_name (h : linked.HasTable units) {s : ObjectSymbol}
    (hs : s ∈ linked.symbols.tail) : (s.id != 0 && s.name == name) = (s.name == name) := by
  obtain ⟨k, hk⟩ := List.mem_iff_getElem?.mp hs
  rw [List.getElem?_tail] at hk
  have hid : s.id ≠ 0 := by
    rw [h.ids (k + 1) s hk]
    exact Nat.succ_ne_zero k
  rw [bne_iff_ne.mpr hid, Bool.true_and]

/-- A look-up finds a symbol of the table if no symbol before it has the name. -/
theorem symbol?_eq_some_iff_first (h : linked.HasTable units) {g : ObjectSymbol}
    {before after : List ObjectSymbol}
    (hsymbols : linked.symbols = .null :: (before ++ g :: after)) :
    linked.symbol? g.name = some g ↔ ∀ s ∈ before, s.name ≠ g.name := by
  have hmatch {s : ObjectSymbol} (hs : s ∈ before ++ g :: after) :
      (s.id != 0 && s.name == g.name) = (s.name == g.name) :=
    matches_iff_name h (by rwa [hsymbols])
  have hg : (g.id != 0 && g.name == g.name) = true := by
    rw [hmatch (by simp), beq_self_eq_true]
  have hlist : linked.symbols = (.null :: before) ++ g :: after := hsymbols
  have hnodup := nodup_symbols h
  rw [hlist] at hnodup
  rw [Linked.symbol?, hlist, find?_eq_some_iff_of_nodup hnodup hg, List.forall_mem_cons]
  refine (and_iff_right (by rfl)).trans (forall₂_congr fun s hs => ?_)
  rw [hmatch (List.mem_append_left _ hs), beq_eq_false_iff_ne]

theorem names_of_moved {cs : List CarriedSymbol} {moved : List ObjectSymbol}
    (h : List.Forall₂ (Moves units linked.regions) cs moved) :
    (∃ s ∈ moved, s.name = name) ↔ ∃ e ∈ cs, e.symbol.name = name := by
  have hnames : List.Forall₂ (· = ·) (moved.map (·.name)) (cs.map (·.symbol.name)) := by
    rw [List.forall₂_map_left_iff, List.forall₂_map_right_iff]
    exact h.flip.imp fun _ _ h => h.name
  rw [List.forall₂_eq_eq_eq] at hnames
  rw [← List.mem_map, ← List.mem_map, hnames]

theorem names_of_regionSymbols
    (h : layout (mergedSizes ((units.map (·.artifact)).map (·.object))) placements =
      .ok linked.regions) :
    (∃ s ∈ regionSymbols linked.regions, s.name = name) ↔
      ∃ u ∈ units, name ∈ u.object.sectionNames := by
  have hnames : (regionSymbols linked.regions).map (·.name) = linked.regions.map (·.name) := by
    rw [regionSymbols, List.map_map]
    conv_rhs => rw [← List.zipIdx_map_fst 0 linked.regions, List.map_map]
    rfl
  rw [← List.mem_map, hnames, names_of_layout h, mem_names_mergedSizes]
  simp [Translation.artifact]

/-- A name that a unit binds global has one global symbol in a link, which the references to it lead
to. A look-up finds that symbol exactly if no section and no label of an earlier unit has the
name. -/
theorem symbol?_eq_global_iff
    (h : link (units.map (·.artifact)) placements = .ok linked) {u : Translation}
    (hu : units[i]? = some u) (hname : name ∈ u.object.globalNames) :
    ∃ g ∈ linked.symbols, (g.binding = .global ∧ g.name = name) ∧
      (∀ s ∈ linked.symbols, s.binding = .global → s.name = name → s = g) ∧
      (∀ p ∈ linked.patches, p.relocation.kind = .absolute → p.relocation.symbol = name →
        p.value = g.value) ∧
      (linked.symbol? name = some g ↔ ¬ Shadowed units i name) := by
  have htable := hasTable_of_link h
  obtain ⟨hlayout, ⟨l⟩⟩ := link_eq_ok h
  have hlinkable := checkArtifacts_eq_ok_iff_linkable.mp l.checked
  obtain ⟨kept, hkept, hglobal, rfl⟩ := exists_kept hname
  let c : CarriedSymbol := ⟨u, i, kept⟩
  have hc : c ∈ carried units := mem_carried.mpr ⟨hu, hkept⟩
  obtain ⟨moved, hsymbols, hmoves⟩ := htable.symbols
  obtain ⟨before, after, hsplit⟩ := List.append_of_mem hc
  rw [hsplit] at hmoves
  obtain ⟨before', g, after', rfl, hbefore, hg⟩ := forall₂_append_cons hmoves
  have hmem : g ∈ linked.symbols := by simp [hsymbols]
  have hgbinding : g.binding = .global := hg.binding.trans hglobal
  have hgname : g.name = kept.name := hg.name
  have hunique (s : ObjectSymbol) (hs : s ∈ linked.symbols) (hbinding : s.binding = .global)
      (hsame : s.name = kept.name) : s = g :=
    eq_of_global htable hs hbinding hmem hgbinding (hsame.trans hgname.symm)
  refine ⟨g, hmem, ⟨hgbinding, hgname⟩, hunique, ?_, ?_⟩
  · intro p hp hkind hsymbol
    obtain ⟨s, hs, hbinding, hsame, hvalue⟩ := exists_global_of_patch l hp hkind
    rw [← hvalue, hunique s hs hbinding (hsame.trans hsymbol)]
  · have hlist : linked.symbols =
        .null :: ((regionSymbols linked.regions ++ before') ++ g :: after') := by simp [hsymbols]
    have hfirst := symbol?_eq_some_iff_first htable hlist
    have hbefore' : (∃ s ∈ before', s.name = kept.name) ↔
        ∃ e ∈ carried units, e.index < i ∧ e.symbol.name = kept.name :=
      (names_of_moved hbefore).trans (before_iff_earlier hsplit)
    rw [hgname] at hfirst
    rw [hfirst, shadowed_iff hlinkable, ← hbefore', ← names_of_regionSymbols hlayout,
      List.forall_mem_append]
    simp only [not_or, not_exists, not_and, ne_eq]

/-- The look-up of a global label that has the name of another unit's section does not give the
symbol which the references to it lead to. -/
theorem symbol?_eq_global_iff_section :
    ∃ u w linked,
      Translation.ofSource? "a" {} ".section g\nhalt" = some u ∧
      Translation.ofSource? "b" {} ".section b\n.global g\ng: .word g" = some w ∧
      link ([u, w].map (·.artifact)) [] = .ok linked ∧
      ∃ g ∈ linked.symbols, (g.binding = .global ∧ g.name = "g") ∧
        (∀ p ∈ linked.patches, p.relocation.kind = .absolute → p.relocation.symbol = "g" →
          p.value = g.value) ∧
        linked.symbol? "g" ≠ some g := by
  let u := (Translation.ofSource? "a" {} ".section g\nhalt").get (by decide +kernel)
  let w := (Translation.ofSource? "b" {} ".section b\n.global g\ng: .word g").get
    (by decide +kernel)
  have hlink : (link ([u, w].map (·.artifact)) []).toOption.isSome = true := by decide +kernel
  have hlinked := Fallible.eq_ok_get hlink
  have hglobal : "g" ∈ w.object.globalNames := by decide +kernel
  have hsection : "g" ∈ u.object.sectionNames := by decide +kernel
  obtain ⟨g, hg, hname, -, hpatches, hlookup⟩ :=
    symbol?_eq_global_iff hlinked (show [u, w][1]? = some w from rfl) hglobal
  refine ⟨u, w, _, (Option.some_get _).symm, (Option.some_get _).symm, hlinked, g, hg, hname,
    hpatches, fun hfound => ?_⟩
  exact hlookup.mp hfound (.bySection List.mem_cons_self hsection)

end Toolchain32
