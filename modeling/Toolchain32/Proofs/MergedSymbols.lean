import Mathlib.Data.List.Forall2
import Toolchain32.Proofs.AcceptedLinks

/-!
# The merged symbol table

The table of a link has the reserved entry, a symbol for each region in the order of the layout, and
then the symbols that the link carries over from the artifacts, in their order. Each of these goes
where the share of its section is, and the symbol of the region comes to own it
(`hasTable_of_link`).
-/

namespace Toolchain32

structure CarriedSymbol where
  unit : Translation
  /-- The place of the unit in the link. -/
  index : Nat
  symbol : ObjectSymbol

/-- All symbols but the reserved entries, those of sections and external ones. -/
def carried (units : List Translation) : List CarriedSymbol :=
  units.zipIdx.flatMap fun (u, i) =>
    (u.object.symbols.tail.filter fun e => e.kind ≠ .ofSection ∧ e.binding ≠ .external).map
      fun e => ⟨u, i, e⟩

/-- Where a symbol ends up: at an address in the region of the section that owns it. -/
inductive Lands (units : List Translation) (regions : List Region) (c : CarriedSymbol) :
    String → Word → Prop
  | intro {o : ObjectSymbol} {b : Word}
      (owner : c.unit.object.symbolById? c.symbol.owner = some o) (isSection : o.kind = .ofSection)
      (share : base regions (units.map (·.object)) c.index o.name = some b) :
      Lands units regions c o.name (b + c.symbol.value)

structure Moves (units : List Translation) (regions : List Region) (c : CarriedSymbol)
    (s : ObjectSymbol) : Prop where
  name : s.name = c.symbol.name
  kind : s.kind = c.symbol.kind
  binding : s.binding = c.symbol.binding
  place : ∃ k r, regions[k]? = some r ∧ s.owner = k + 1 ∧ Lands units regions c r.name s.value

def regionSymbols (regions : List Region) : List ObjectSymbol :=
  regions.zipIdx.map fun (r, i) => ⟨i + 1, r.name, r.start, .ofSection, i + 1, .localOnly⟩

structure Linked.HasTable (units : List Translation) (linked : Linked) : Prop where
  symbols : ∃ moved, linked.symbols = .null :: (regionSymbols linked.regions ++ moved) ∧
    List.Forall₂ (Moves units linked.regions) (carried units) moved
  ids : ∀ (k : Nat) (s : ObjectSymbol), linked.symbols[k]? = some s → s.id = k
  globals : ((linked.symbols.filter (·.binding == .global)).map (·.name)).Nodup

variable {units : List Translation} {regions : List Region} {placements : List Placement}
  {linked : Linked} {c : CarriedSymbol}

theorem keptSymbols_eq (o : Object) : Merged.keptSymbols o =
    o.symbols.tail.filter fun e => e.kind ≠ .ofSection ∧ e.binding ≠ .external := by
  rw [Merged.keptSymbols, List.drop_one]
  exact List.filter_congr fun e _ => by rw [Bool.eq_iff_iff]; simp

theorem mem_carried : c ∈ carried units ↔
    units[c.index]? = some c.unit ∧ c.symbol ∈ Merged.keptSymbols c.unit.object := by
  simp only [carried, ← keptSymbols_eq, List.mem_flatMap, List.mem_map]
  constructor
  · rintro ⟨⟨u, i⟩, hu, e, he, rfl⟩
    exact ⟨List.mem_zipIdx_iff_getElem?.mp hu, he⟩
  · rintro ⟨hu, he⟩
    exact ⟨(c.unit, c.index), List.mem_zipIdx_iff_getElem?.mpr hu, c.symbol, he, rfl⟩

theorem sublist_globals_carried (units : List Translation) :
    (((carried units).filter (·.symbol.binding == .global)).map (·.symbol.name)).Sublist
      ((units.map (·.artifact)).flatMap (·.object.globalNames)) := by
  have hunits : (units.map (·.artifact)).flatMap (·.object.globalNames) =
      units.zipIdx.flatMap fun p => p.1.object.globalNames := by
    conv_lhs => rw [← List.zipIdx_map_fst 0 units]
    rw [List.map_map, List.flatMap_map]
    rfl
  rw [hunits, carried, List.filter_flatMap, List.map_flatMap]
  refine List.Sublist.flatMap_right _ fun p _ => ?_
  rw [List.filter_map, List.map_map]
  exact ((List.filter_sublist.trans (List.tail_sublist _)).filter _).map _

def ObjectSymbol.numberedAs (s : ObjectSymbol) (i : Nat) : ObjectSymbol :=
  { s with id := i, owner := if s.kind = .ofSection then i else s.owner }

def CarriedSymbol.rebased (c : CarriedSymbol) (units : List Translation)
    (regions : List Region) : ObjectSymbol :=
  Merged.rebaseSymbol regions (regions.map fun r =>
    (r.name, shareStarts r.name r.start (units.map (·.object)))) c.index c.unit.object c.symbol

/-- A symbol that is carried over is that of a label, and moves with it. -/
theorem moves_rebased (hnames : ∀ name, name ∈ regions.map (·.name) ↔
      name ∈ (mergedSizes (units.map (·.object))).map (·.1)) (hlinkable : Linkable units)
    (hc : c ∈ carried units) : Moves units regions c (c.rebased units regions) := by
  obtain ⟨hu, hkept⟩ := mem_carried.mp hc
  have ho : (units.map (·.object))[c.index]? = some c.unit.object := by simp [hu]
  have hsymbol : c.symbol ∈ c.unit.object.symbols :=
    List.mem_of_mem_drop (List.mem_filter.mp hkept).1
  have hdefined := hlinkable.defined c.unit (List.mem_of_getElem? hu) c.symbol hsymbol
  obtain ⟨o, offset, howner, hkind, hlabel, -⟩ := Translation.label_of_kept hkept hdefined
  have hsection := Translation.section_of_label hlabel
  obtain ⟨b, hb⟩ := exists_base_of_names hnames ho hsection
  obtain ⟨k, r, hr, hname, hrebased⟩ := Merged.rebaseSymbol_eq
    (congrArg (Option.map (·.name)) howner) (start?_of_base ho hsection hb)
  rw [CarriedSymbol.rebased, hrebased]
  exact ⟨rfl, rfl, rfl, k, r, hr, rfl, hname ▸ .intro howner hkind hb⟩

theorem Moves.numberedAs {s : ObjectSymbol} (h : Moves units regions c s)
    (hc : c ∈ carried units) (i : Nat) : Moves units regions c (s.numberedAs i) := by
  have hkeep := (List.mem_filter.mp (mem_carried.mp hc).2).2
  rw [Bool.and_eq_true, bne_iff_ne] at hkeep
  have howner : (s.numberedAs i).owner = s.owner := if_neg (h.kind ▸ hkeep.1)
  refine ⟨h.name, h.kind, h.binding, ?_⟩
  rw [howner]
  exact h.place

theorem symbols_ofRegions (units : List Translation) (regions : List Region) :
    (Merged.ofRegions (units.map (·.object)) regions).symbols =
      .null :: (regionSymbols regions ++
        (((carried units).map (·.rebased units regions)).zipIdx (1 + regions.length)).map
          fun p => p.1.numberedAs p.2) := by
  have hadded : (units.map (·.object)).zipIdx.flatMap (fun p =>
        (Merged.keptSymbols p.1).map (Merged.rebaseSymbol regions (regions.map fun r =>
          (r.name, shareStarts r.name r.start (units.map (·.object)))) p.2 p.1)) =
      (carried units).map (·.rebased units regions) := by
    simp only [carried, ← keptSymbols_eq, List.zipIdx_map, List.flatMap_map, List.map_flatMap,
      List.map_map]
    rfl
  have hregions : ((regions.map Merged.regionSymbol).zipIdx 1).map (fun p => p.1.numberedAs p.2) =
      regionSymbols regions := by
    rw [List.zipIdx_map, List.zipIdx_succ, List.map_map, List.map_map]
    rfl
  have hnumbered (added : List ObjectSymbol) :
      Merged.numbered (ObjectSymbol.null :: (regions.map Merged.regionSymbol ++ added)) =
        .null :: (regionSymbols regions ++
          (added.zipIdx (1 + regions.length)).map fun p => p.1.numberedAs p.2) := by
    rw [← hregions, ← List.length_map (f := Merged.regionSymbol), ← List.map_append,
      ← List.zipIdx_append]
    rfl
  rw [← hadded, ← hnumbered]
  rfl

theorem forall₂_map_zipIdx {α β γ : Type} {R : α → γ → Prop} {f : α → β} {g : β × Nat → γ}
    {as : List α} (h : ∀ a ∈ as, ∀ i, R a (g (f a, i))) (k : Nat) :
    List.Forall₂ R as (((as.map f).zipIdx k).map g) := by
  induction as generalizing k with
  | nil => exact .nil
  | cons a rest ih =>
    exact .cons (h a List.mem_cons_self k)
      (ih (fun b hb => h b (List.mem_cons_of_mem a hb)) (k + 1))

/-- The id of a symbol is its place in the table. -/
theorem id_of_merged {objects : List Object} {k : Nat} {s : ObjectSymbol}
    (h : (Merged.ofRegions objects regions).symbols[k]? = some s) : s.id = k := by
  have h' : (Merged.numbered _)[k]? = some s := h
  rw [Merged.numbered, List.getElem?_map, List.getElem?_zipIdx, Option.map_map,
    Option.map_eq_some_iff] at h'
  obtain ⟨_, -, rfl⟩ := h'
  exact Nat.zero_add k

/-- The global symbols of a table are those that were global before. -/
theorem forall₂_globals {symbols moved : List ObjectSymbol}
    (hsymbols : symbols = .null :: (regionSymbols regions ++ moved))
    (hmoves : List.Forall₂ (Moves units regions) (carried units) moved) :
    List.Forall₂ (Moves units regions) ((carried units).filter (·.symbol.binding == .global))
      (symbols.filter (·.binding == .global)) := by
  have hregions : (regionSymbols regions).filter (·.binding == .global) = [] := by
    refine List.filter_eq_nil_iff.mpr fun s hs => ?_
    obtain ⟨_, -, rfl⟩ := List.mem_map.mp hs
    simp
  rw [hsymbols, List.filter_cons_of_neg (by decide), List.filter_append, hregions,
    List.nil_append]
  exact List.rel_filter (fun _ _ h => by simp only [h.binding]) hmoves

/-- The table of a successful link. -/
theorem hasTable_of_link (h : link (units.map (·.artifact)) placements = .ok linked) :
    linked.HasTable units := by
  obtain ⟨hlayout, ⟨l⟩⟩ := link_eq_ok h
  have hobjects := Translation.objects_of_artifacts units
  have hmerged := l.merged
  rw [hobjects] at hlayout hmerged
  have hlinkable := checkArtifacts_eq_ok_iff_linkable.mp l.checked
  have hsymbols := hmerged.trans (symbols_ofRegions units linked.regions)
  have hmoves := forall₂_map_zipIdx (g := fun p => ObjectSymbol.numberedAs p.1 p.2)
    (fun c hc i => (moves_rebased (names_of_layout hlayout) hlinkable hc).numberedAs hc i)
    (1 + linked.regions.length)
  refine ⟨⟨_, hsymbols, hmoves⟩, fun k s hs => id_of_merged (hmerged ▸ hs), ?_⟩
  have hnames : List.Forall₂ (· = ·)
      ((linked.symbols.filter (·.binding == .global)).map (·.name))
      (((carried units).filter (·.symbol.binding == .global)).map (·.symbol.name)) := by
    rw [List.forall₂_map_left_iff, List.forall₂_map_right_iff]
    exact (forall₂_globals hsymbols hmoves).flip.imp fun _ _ h => h.name
  rw [List.forall₂_eq_eq_eq] at hnames
  rw [hnames]
  exact (nodup_globalNames l.checked).sublist (sublist_globals_carried units)

end Toolchain32
