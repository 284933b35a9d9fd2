import Toolchain32.Proofs.ExactSums
import Toolchain32.Proofs.OverflowingPlans

/-!
# The addresses of a link are exact

All addresses in the result of a link are the sums that they should be, and all symbols are within
their regions, unless a share or a label is where the address space ends. A plan that goes beyond
that is refused with a range error (`exact_iff_not_atEnd`).
-/

namespace Toolchain32

open Fallible

section

variable (units : List Translation) (linked : Linked)

structure Linked.Accounted : Prop where
  /-- The symbols of the table, apart from the reserved one and those of regions. -/
  symbols : ∀ s ∈ linked.symbols, s.kind ≠ .ofSection → s.owner ≠ 0 →
    ∃ e n, e.name = s.name ∧ SymbolAt units linked.regions e s.value n
  patches : ∀ p ∈ linked.patches, ∃ i u r b n m,
    Share units linked.regions i u p.sectionName b n ∧ u.HasRelocation p.sectionName r ∧
      p.relocation.symbol = r.symbol ∧ p.relocation.offset = b + r.offset ∧
      PatchedTo units linked.regions i u r p.value m
  words : ∀ a v, linked.image.get? a = some v → ∃ n, Computes units linked.regions a n

/-- No address wraps, so that every symbol is between the begin and the end of its region. -/
structure Linked.Exact : Prop where
  sums : ∀ v n, Computes units linked.regions v n → v.toNat = n
  symbols : ∀ s ∈ linked.symbols, ∀ (k : Nat) (r : Region), s.owner = k + 1 →
    linked.regions[k]? = some r → r.start.toNat ≤ s.value.toNat ∧
      s.value.toNat ≤ r.start.toNat + ((mergedSizes (units.map (·.object))).lookup r.name).getD 0

end

variable {units : List Translation} {placements : List Placement} {linked : Linked}

/-- A symbol that is carried over lands in a share of its unit. -/
theorem Lands.exists_share {regions : List Region} {c : CarriedSymbol} {name : String} {v : Word}
    (h : Lands units regions c name v) (hc : c ∈ carried units) :
    ∃ b n, Share units regions c.index c.unit name b n ∧
      c.symbol.value.toNat ≤ c.unit.object.sizeOf name ∧
      SymbolAt units regions c.symbol v (n + c.symbol.value.toNat) := by
  obtain ⟨hu, hkept⟩ := mem_carried.mp hc
  obtain ⟨howner, hkind, hb⟩ := h
  have hlisted := Translation.section_of_symbol (List.mem_of_find?_eq_some howner) hkind
  have hmem := List.mem_of_mem_drop (List.mem_filter.mp hkept).1
  obtain ⟨n, hshare⟩ := Share.of_base hu hlisted hb
  exact ⟨_, n, hshare, Translation.value_le_of_symbol hmem howner,
    .intro hshare hmem howner hkind⟩

/-- Every entry of the table is the reserved one, that of a region, or one that is carried over. -/
theorem Linked.HasTable.cases_of_mem (h : linked.HasTable units) {s : ObjectSymbol}
    (hs : s ∈ linked.symbols) :
    s = .null ∨ s ∈ regionSymbols linked.regions ∨
      ∃ c ∈ carried units, Moves units linked.regions c s := by
  obtain ⟨moved, hsymbols, hmoves⟩ := h.symbols
  rw [hsymbols] at hs
  rcases List.mem_cons.mp hs with hs | hs
  · exact .inl hs
  rcases List.mem_append.mp hs with hs | hs
  · exact .inr (.inl hs)
  · obtain ⟨k, hk, rfl⟩ := List.mem_iff_getElem.mp hs
    have hlength := hmoves.length_eq
    have hk' : k < (carried units).length := by omega
    exact .inr (.inr ⟨_, List.getElem_mem hk', hmoves.get hk' hk⟩)

theorem Linked.HasTable.exists_symbolAt (h : linked.HasTable units) {s : ObjectSymbol}
    (hs : s ∈ linked.symbols) (hnull : s ≠ .null) (hregion : s ∉ regionSymbols linked.regions) :
    ∃ e n, e.binding = s.binding ∧ e.name = s.name ∧
      SymbolAt units linked.regions e s.value n := by
  rcases h.cases_of_mem hs with hs | hs | ⟨c, hc, hmoves⟩
  · exact absurd hs hnull
  · exact absurd hs hregion
  · obtain ⟨_, _, -, -, hlands⟩ := hmoves.place
    obtain ⟨_, _, -, -, hsymbol⟩ := hlands.exists_share hc
    exact ⟨c.symbol, _, hmoves.binding.symm, hmoves.name.symm, hsymbol⟩

theorem of_mem_regionSymbols {regions : List Region} {s : ObjectSymbol}
    (h : s ∈ regionSymbols regions) : s.kind = .ofSection ∧ s.binding = .localOnly := by
  obtain ⟨_, -, rfl⟩ := List.mem_map.mp h
  exact ⟨rfl, rfl⟩

/-- A contribution goes to a share. -/
theorem share_of_contribution {c : Contribution} (hc : c ∈ contributions
      (.ofRegions ((units.map (·.artifact)).map (·.object)) linked.regions)
      (units.map (·.artifact))) :
    ∃ u n, Share units linked.regions c.index u c.sectionName c.start n ∧
      (c.sectionName, c.data) ∈ u.object.data := by
  obtain ⟨-, -, hstart⟩ := mem_contributions.mp hc
  obtain ⟨u, hu, -, hdata⟩ := unit_of_contribution hc
  have hb := base_of_start? hstart
  rw [Translation.objects_of_artifacts] at hb
  obtain ⟨n, hn⟩ := Share.of_base hu (u.object_sound.listed _ hdata) hb
  exact ⟨u, n, hn, hdata⟩

/-- A relocation is patched to what it asks for. -/
theorem patchedTo_of_resolve (h : linked.HasTable units) {c : Contribution} {u : Translation}
    {name : String} {r : Relocation} {addend value : Word} (hu : units[c.index]? = some u)
    (hr : u.HasRelocation name r) (hsymbols : linked.symbols =
      (Merged.ofRegions ((units.map (·.artifact)).map (·.object)) linked.regions).symbols)
    (hresolve : c.resolve (.ofRegions ((units.map (·.artifact)).map (·.object)) linked.regions) r =
      .ok (addend, value)) : ∃ m, PatchedTo units linked.regions c.index u r value m := by
  cases hkind : r.kind with
  | sectionRelative =>
    obtain ⟨start, hb, rfl⟩ := Contribution.resolve_sectionRelative hkind hresolve
    rw [Translation.objects_of_artifacts] at hb
    obtain ⟨_, hshare⟩ := Share.of_base hu (hr.listed hkind) hb
    exact ⟨_, .sectionRelative hkind hshare⟩
  | absolute =>
    obtain ⟨s, hs, hglobal, hname, rfl⟩ := Contribution.resolve_absolute hkind hresolve
    have hnull : s ≠ .null := fun heq => by cases heq ▸ hglobal
    have hregion : s ∉ regionSymbols linked.regions := fun hmem => by
      cases hglobal.symm.trans (of_mem_regionSymbols hmem).2
    obtain ⟨e, _, hbinding, hsymbol, hplace⟩ := h.exists_symbolAt (hsymbols ▸ hs) hnull hregion
    exact ⟨_, .absolute hkind (hbinding.trans hglobal) (hsymbol.trans hname) hplace⟩

theorem accounted_of_link (h : link (units.map (·.artifact)) placements = .ok linked) :
    linked.Accounted units := by
  have htable := hasTable_of_link h
  obtain ⟨-, ⟨l⟩⟩ := link_eq_ok h
  refine ⟨fun s hs hkind howner => ?_, fun p hp => ?_, fun a v hv => ?_⟩
  · obtain ⟨e, n, -, hname, hsymbol⟩ := htable.exists_symbolAt hs (fun heq => howner (heq ▸ rfl))
      fun hregion => hkind (of_mem_regionSymbols hregion).1
    exact ⟨e, n, hname, hsymbol⟩
  · obtain ⟨c, hc, r, hr, hpatch⟩ := l.exists_relocation hp rfl
    obtain ⟨addend, value, hresolve, rfl, -⟩ := Contribution.patch_eq_ok hpatch
    obtain ⟨u, n, hshare, hdata⟩ := share_of_contribution hc
    have hrelocation : u.HasRelocation c.sectionName r := ⟨c.data, hdata, hr⟩
    obtain ⟨m, hpatched⟩ := patchedTo_of_resolve htable hshare.unit hrelocation l.merged hresolve
    exact ⟨c.index, u, r, c.start, n, m, hshare, hrelocation, rfl, rfl, hpatched⟩
  · obtain ⟨c, hc, ps, hps, hw⟩ := l.exists_contribution hv rfl
    obtain ⟨u, n, hshare, hdata⟩ := share_of_contribution hc
    obtain ⟨-, hcdata, -⟩ := mem_contributions.mp hc
    obtain ⟨w, -, hartifact, -⟩ := unit_of_contribution hc
    have hbounded : c.artifact.object.Bounded := hartifact ▸ w.object_sound.toBounded
    obtain ⟨x, hx, hholds, -⟩ := Contribution.writes_within hbounded hcdata hps _ hw
    obtain rfl : a = c.start + x := hx
    cases hholds with
    | word hword => exact ⟨_, .word hshare ⟨c.data, _, hdata, hword⟩⟩
    | relocation hr => exact ⟨_, .relocation hshare ⟨c.data, hdata, hr⟩⟩

theorem not_atEnd_of_sums {regions : List Region}
    (h : ∀ v n, Computes units regions v n → v.toNat = n) : ¬ AtEnd units regions := by
  have hend {v : Word} (hv : Computes units regions v addressSpace) : False :=
    absurd (h _ _ hv) (Nat.ne_of_lt v.toNat_lt)
  rintro (hshare | ⟨hshare, hlabel, hsum⟩)
  · exact hend (.share hshare)
  · obtain ⟨e, he, o, howner, hkind, rfl, hvalue⟩ := Translation.owned_of_label hlabel
    have hexact := Translation.toNat_of_label hlabel
    rw [← hvalue] at hexact
    have hsymbol := Computes.symbol (.intro hshare he howner hkind)
    rw [hexact, hsum] at hsymbol
    exact hend hsymbol

theorem toNat_of_isSum {regions : List Region} {v : Word} {n : Nat}
    (h : IsSum units regions v n) (hend : ¬ AtEnd units regions) : v.toNat = n := by
  have hne : n ≠ addressSpace := fun hn => hend (h.atEnd hn)
  rw [h.word]
  exact UInt32.toNat_ofNat_of_lt' (Nat.lt_of_le_of_ne h.le hne)

theorem exact_of_not_atEnd (h : link (units.map (·.artifact)) placements = .ok linked)
    (hend : ¬ AtEnd units linked.regions) : linked.Exact units := by
  have htable := hasTable_of_link h
  obtain ⟨hlayout, -⟩ := link_eq_ok h
  rw [Translation.objects_of_artifacts] at hlayout
  have hnames := nodup_names_of_layout (nodup_mergedSizes _) hlayout
  refine ⟨fun v n hv => toNat_of_isSum (hv.isSum hlayout) hend, fun s hs k r howner hr => ?_⟩
  rcases htable.cases_of_mem hs with rfl | hregion | ⟨c, hc, hmoves⟩
  · cases howner
  · obtain ⟨⟨q, i⟩, hq, rfl⟩ := List.mem_map.mp hregion
    obtain rfl : i = k := Nat.succ.inj howner
    obtain rfl := Option.some.inj ((List.mem_zipIdx_iff_getElem?.mp hq).symm.trans hr)
    exact ⟨Nat.le_refl _, Nat.le_add_right ..⟩
  · obtain ⟨l, q, hq, hlowner, hlands⟩ := hmoves.place
    obtain rfl : l = k := Nat.succ.inj (hlowner.symm.trans howner)
    obtain rfl := Option.some.inj (hq.symm.trans hr)
    obtain ⟨b, n, hshare, hvalue, hsymbol⟩ := hlands.exists_share hc
    have hsum := toNat_of_isSum (hsymbol.isSum hlayout) hend
    obtain ⟨r, hmem, hname, hbegin, hstop⟩ := hshare.exists_region
    obtain rfl := List.inj_on_of_nodup_map hnames hmem (List.mem_of_getElem? hr) hname
    omega

/-- Every address in the result of a link is a sum that the link computes, and the word that it
computes is that sum modulo 2^32. All are exact, and all symbols within their regions, unless a
share or a label is where the address space ends. A plan that goes beyond it is refused. -/
theorem exact_iff_not_atEnd (units : List Translation) (placements : List Placement) :
    let sizes := mergedSizes (units.map (·.object))
    let plan := plannedSpans sizes placements (byAddress placements)
    (∀ linked, link (units.map (·.artifact)) placements = .ok linked →
      linked.Accounted units ∧
      (∀ v n, Computes units linked.regions v n → v = UInt32.ofNat n ∧ n ≤ addressSpace) ∧
      (linked.Exact units ↔ ¬ AtEnd units linked.regions)) ∧
    (Linkable units → Consistent sizes placements (byAddress placements) →
      (∃ s ∈ plan, s.Overflows) →
      ∃ s ∈ plan, s.Overflows ∧ link (units.map (·.artifact)) placements = .error s.overflow ∧
        s.overflow.kind = .range) := by
  intro sizes plan
  refine ⟨fun linked h => ⟨accounted_of_link h, fun v n hv => ?_, ?_⟩, ?_⟩
  · obtain ⟨hlayout, -⟩ := link_eq_ok h
    rw [Translation.objects_of_artifacts] at hlayout
    have hsum := hv.isSum hlayout
    exact ⟨hsum.word, hsum.le⟩
  · exact ⟨fun hexact => not_atEnd_of_sums hexact.sums, exact_of_not_atEnd h⟩
  · intro hlinkable hconsistent hoverflows
    obtain ⟨s, hs, htoo, herror⟩ := layout_eq_error hconsistent hoverflows
    refine ⟨s, hs, htoo, bind_eq_error.mpr (.inr ⟨(), ?_, bind_eq_error.mpr (.inl ?_)⟩), rfl⟩
    · exact checkArtifacts_eq_ok_iff_linkable.mpr hlinkable
    · rw [Translation.objects_of_artifacts]
      exact herror

/-- A label behind the last word of the address space gets address zero, outside of its region. Two
bytes further on, the section has no room. -/
theorem exact_iff_not_atEnd_lastWord :
    ∃ u linked, Translation.ofSource? "a" {} ".section t\n.word e\ne:" = some u ∧
      link ([u].map (·.artifact)) [⟨"t", 0xFFFFFFFC⟩] = .ok linked ∧
      ⟨2, "e", 0, .plain, 1, .localOnly⟩ ∈ linked.symbols ∧
      ¬ linked.Exact [u] ∧ AtEnd [u] linked.regions ∧
      ∃ e, link ([u].map (·.artifact)) [⟨"t", 0xFFFFFFFE⟩] = .error e ∧ e.kind = .range := by
  let u := (Translation.ofSource? "a" {} ".section t\n.word e\ne:").get (by decide +kernel)
  let linked := (link ([u].map (·.artifact)) [⟨"t", 0xFFFFFFFC⟩]).toOption.get (by decide +kernel)
  have hlinked : link ([u].map (·.artifact)) [⟨"t", 0xFFFFFFFC⟩] = .ok linked := eq_ok_get _
  have hmem : ⟨2, "e", 0, .plain, 1, .localOnly⟩ ∈ linked.symbols := by decide +kernel
  have hregion : linked.regions[0]? = some ⟨"t", 0xFFFFFFFC, 4⟩ := by decide +kernel
  have hwrapped : ¬ linked.Exact [u] := fun h =>
    absurd (h.symbols _ hmem 0 _ rfl hregion).1 (by decide)
  obtain ⟨hresult, -⟩ := exact_iff_not_atEnd [u] [⟨"t", 0xFFFFFFFC⟩]
  obtain ⟨-, -, hiff⟩ := hresult linked hlinked
  obtain ⟨-, ⟨l⟩⟩ := link_eq_ok hlinked
  obtain ⟨-, hrefused⟩ := exact_iff_not_atEnd [u] [⟨"t", 0xFFFFFFFE⟩]
  obtain ⟨s, -, -, herror, hkind⟩ := hrefused (checkArtifacts_eq_ok_iff_linkable.mp l.checked)
    ⟨by decide, by decide +kernel, by decide +kernel⟩
    ⟨⟨"t", 0xFFFFFFFE, 4⟩, by decide +kernel, .inr (by decide)⟩
  exact ⟨u, linked, (Option.some_get _).symm, hlinked, hmem, hwrapped,
    not_not.mp fun hend => hwrapped (hiff.mpr hend), s.overflow, herror, hkind⟩

end Toolchain32
