import Toolchain32.Proofs.LinkMaps

/-!
# The sums of a link

A link adds up its addresses modulo 2^32. `Computes` has each of them beside the sum of the same
numbers without a bound. The layout sees to it that no such sum goes beyond the end of the address
space, but a share or a label may be right there: `Computes.isSum`.
-/

namespace Toolchain32

namespace Translation

def HasWord (u : Translation) (name : String) (x : Word) : Prop :=
  ∃ data slot, (name, data) ∈ u.object.data ∧ data.words[x]? = some slot

def HasRelocation (u : Translation) (name : String) (r : Relocation) : Prop :=
  ∃ data, (name, data) ∈ u.object.data ∧ r ∈ data.relocations

end Translation

def exactBase (regions : List Region) (objects : List Object) (i : Nat) (name : String) :
    Option Nat :=
  (regions.find? (·.name == name)).map fun r => r.start.toNat + sizeBefore objects i name

section

variable (units : List Translation) (regions : List Region)

/-- The share of a unit in a section begins at `b`, which without a bound is `n`. -/
structure Share (i : Nat) (u : Translation) (name : String) (b : Word) (n : Nat) : Prop where
  unit : units[i]? = some u
  listed : name ∈ u.object.sectionNames
  word : base regions (units.map (·.object)) i name = some b
  exact : exactBase regions (units.map (·.object)) i name = some n

inductive SymbolAt (e : ObjectSymbol) : Word → Nat → Prop
  | intro {i : Nat} {u : Translation} {o : ObjectSymbol} {b : Word} {n : Nat}
      (share : Share units regions i u o.name b n) (mem : e ∈ u.object.symbols)
      (owner : u.object.symbolById? e.owner = some o) (isSection : o.kind = .ofSection) :
      SymbolAt e (b + e.value) (n + e.value.toNat)

/-- What a relocation of a unit is patched to: its addend counts from the share of a section, or
from a global symbol. -/
inductive PatchedTo (i : Nat) (u : Translation) (r : Relocation) : Word → Nat → Prop
  | sectionRelative {b : Word} {n : Nat} (kind : r.kind = .sectionRelative)
      (share : Share units regions i u r.symbol b n) :
      PatchedTo i u r (b + r.addend) (n + r.addend.toNat)
  | absolute {e : ObjectSymbol} {v : Word} {n : Nat} (kind : r.kind = .absolute)
      (isGlobal : e.binding = .global) (name : e.name = r.symbol)
      (symbol : SymbolAt units regions e v n) :
      PatchedTo i u r (v + r.addend) (n + r.addend.toNat)

/-- The addresses that a link computes, each with the sum of the same numbers without a bound: where
the shares begin, where symbols, words and relocations are, and what relocations are patched to. -/
inductive Computes : Word → Nat → Prop
  | share {i : Nat} {u : Translation} {name : String} {b : Word} {n : Nat}
      (h : Share units regions i u name b n) : Computes b n
  | symbol {e : ObjectSymbol} {v : Word} {n : Nat} (h : SymbolAt units regions e v n) :
      Computes v n
  | word {i : Nat} {u : Translation} {name : String} {b x : Word} {n : Nat}
      (h : Share units regions i u name b n) (word : u.HasWord name x) :
      Computes (b + x) (n + x.toNat)
  | relocation {i : Nat} {u : Translation} {name : String} {b : Word} {n : Nat} {r : Relocation}
      (h : Share units regions i u name b n) (relocation : u.HasRelocation name r) :
      Computes (b + r.offset) (n + r.offset.toNat)
  | patch {i : Nat} {u : Translation} {name : String} {v : Word} {n : Nat} {r : Relocation}
      (unit : units[i]? = some u) (relocation : u.HasRelocation name r)
      (h : PatchedTo units regions i u r v n) : Computes v n

inductive AtEnd : Prop
  | share {i : Nat} {u : Translation} {name : String} {b : Word}
      (h : Share units regions i u name b addressSpace)
  | label {i : Nat} {u : Translation} {name sectionName : String} {b : Word} {n offset : Nat}
      (h : Share units regions i u sectionName b n) (label : u.HasLabel name sectionName offset)
      (sum : n + offset = addressSpace)

/-- A sum goes to the end of the address space at most, and it is what the link computes there
modulo 2^32. -/
structure IsSum (v : Word) (n : Nat) : Prop where
  word : v = UInt32.ofNat n
  le : n ≤ addressSpace
  atEnd : n = addressSpace → AtEnd units regions

end

theorem sizeOf_lt (o : Object) (name : String) : o.sizeOf name < addressSpace := by
  rw [Object.sizeOf]
  cases o.section? name with
  | none => exact (by decide : 0 < addressSpace)
  | some s => exact s.size.toNat_lt

namespace Translation

variable {u : Translation} {name : String} {e o : ObjectSymbol} {r : Relocation} {x : Word}

theorem section_of_symbol (he : e ∈ u.object.symbols) (hkind : e.kind = .ofSection) :
    e.name ∈ u.object.sectionNames := by
  obtain ⟨p, hp⟩ := u.exists_passes
  rw [symbols_object hp] at he
  rcases List.mem_cons.mp he with rfl | he
  · cases hkind
  rcases p.describes.entries e he with ⟨_, hopened, hsection⟩ | ⟨_, -, hlabel⟩ | hopen
  · rw [object_eq hp, p.sectionNames_object, hsection.name]
    exact hopened
  · cases hkind.symm.trans hlabel.kind
  · cases hkind.symm.trans hopen.kind

/-- A symbol that a section owns stands for the begin of the section or for a label in it. -/
theorem place_of_symbol (he : e ∈ u.object.symbols)
    (howner : u.object.symbolById? e.owner = some o) :
    e.value = 0 ∨ ∃ offset, u.HasLabel e.name o.name offset ∧ e.value = UInt32.ofNat offset := by
  obtain ⟨p, hp⟩ := u.exists_passes
  rw [symbols_object hp] at he
  rcases List.mem_cons.mp he with rfl | he
  · exact .inl rfl
  rcases p.describes.entries e he with ⟨_, -, hsection⟩ | ⟨l, hl, hlabel⟩ | hopen
  · exact .inl hsection.value
  · obtain ⟨o', ho', -, hname⟩ := hlabel.owner
    have hfound := SymbolTable.find?_id_of_byId? p.describes.sound ho'
    rw [object_eq hp] at howner
    obtain rfl := Option.some.inj (howner.symm.trans hfound)
    refine .inr ⟨l.offset, (hasLabel_iff hp).mpr ?_, hlabel.value⟩
    rw [hlabel.name, hname]
    exact hl
  · exact .inl hopen.value

/-- Every label has its symbol, which its section owns. -/
theorem owned_of_label {sectionName : String} {offset : Nat}
    (h : u.HasLabel name sectionName offset) :
    ∃ e ∈ u.object.symbols, ∃ o, u.object.symbolById? e.owner = some o ∧ o.kind = .ofSection ∧
      o.name = sectionName ∧ e.value = UInt32.ofNat offset := by
  obtain ⟨p, hp⟩ := u.exists_passes
  obtain ⟨e, he, hlabel, -⟩ := symbol_of_label hp h
  obtain ⟨o, ho, hkind, hname⟩ := hlabel.owner
  refine ⟨e, ?_, o, ?_, hkind, hname, hlabel.value⟩
  · rw [symbols_object hp]
    exact List.mem_cons_of_mem _ he
  · rw [object_eq hp]
    exact SymbolTable.find?_id_of_byId? p.describes.sound ho

theorem offset_le_of_label {sectionName : String} {offset : Nat}
    (h : u.HasLabel name sectionName offset) : offset ≤ u.object.sizeOf sectionName := by
  obtain ⟨p, hp⟩ := u.exists_passes
  rw [object_eq hp, p.sizeOf_object]
  exact p.sound.within _ ((hasLabel_iff hp).mp h)

theorem toNat_of_label {sectionName : String} {offset : Nat}
    (h : u.HasLabel name sectionName offset) : (UInt32.ofNat offset).toNat = offset :=
  UInt32.toNat_ofNat_of_lt' (Nat.lt_of_le_of_lt (offset_le_of_label h) (sizeOf_lt _ _))

theorem value_le_of_symbol (he : e ∈ u.object.symbols)
    (howner : u.object.symbolById? e.owner = some o) :
    e.value.toNat ≤ u.object.sizeOf o.name := by
  rcases place_of_symbol he howner with hvalue | ⟨offset, hlabel, hvalue⟩
  · simp [hvalue]
  · rw [hvalue, toNat_of_label hlabel]
    exact offset_le_of_label hlabel

theorem HasWord.within (h : u.HasWord name x) : x.toNat + 4 ≤ u.object.sizeOf name := by
  obtain ⟨data, slot, hdata, hword⟩ := h
  exact u.object_sound.words _ hdata x slot hword

theorem HasRelocation.within (h : u.HasRelocation name r) :
    r.offset.toNat + 4 ≤ u.object.sizeOf name := by
  obtain ⟨data, hdata, hr⟩ := h
  obtain ⟨_, -, hwithin, -⟩ := exists_relocation_of_data hdata hr
  exact hwithin

theorem HasRelocation.listed (h : u.HasRelocation name r) (hkind : r.kind = .sectionRelative) :
    r.symbol ∈ u.object.sectionNames := by
  obtain ⟨data, hdata, hr⟩ := h
  obtain ⟨p, hp, -, _, _, hrelocation⟩ := exists_relocation_of_data hdata hr
  rcases target_of_relocation hp hrelocation with ⟨-, hlisted⟩ | ⟨habsolute, -⟩
  · exact hlisted
  · cases hkind.symm.trans habsolute

end Translation

theorem base_eq_map_exactBase (regions : List Region) (objects : List Object) (i : Nat)
    (name : String) :
    base regions objects i name = (exactBase regions objects i name).map UInt32.ofNat := by
  rw [base, exactBase, Option.map_map]
  refine congrArg (Option.map · _) (funext fun r => ?_)
  rw [Function.comp_apply, UInt32.ofNat_add, UInt32.ofNat_toNat]

namespace Share

variable {units : List Translation} {regions : List Region} {placements : List Placement} {i : Nat}
  {u : Translation} {name : String} {b : Word} {n : Nat}

theorem of_base (hu : units[i]? = some u) (hname : name ∈ u.object.sectionNames)
    (hb : base regions (units.map (·.object)) i name = some b) :
    ∃ n, Share units regions i u name b n := by
  have hexact := hb
  rw [base_eq_map_exactBase] at hexact
  obtain ⟨n, hn, -⟩ := Option.map_eq_some_iff.mp hexact
  exact ⟨n, hu, hname, hb, hn⟩

theorem word_eq (h : Share units regions i u name b n) : b = UInt32.ofNat n := by
  have hb := h.word
  rw [base_eq_map_exactBase, h.exact] at hb
  exact (Option.some.inj hb).symm

/-- A share lies within the region of its section. -/
theorem exists_region (h : Share units regions i u name b n) :
    ∃ r ∈ regions, r.name = name ∧ r.start.toNat ≤ n ∧ n + u.object.sizeOf name ≤
      r.start.toNat + ((mergedSizes (units.map (·.object))).lookup name).getD 0 := by
  obtain ⟨r, hr, rfl⟩ := Option.map_eq_some_iff.mp h.exact
  have ho : (units.map (·.object))[i]? = some u.object := by simp [h.unit]
  have hall := sizeBefore_le_mergedSizes (units.map (·.object)) name
  have hnext := sizeBefore_succ ho name
  have hsome := sizeBefore_length_le (units.map (·.object)) (i + 1) name
  exact ⟨r, List.mem_of_find?_eq_some hr, by simpa using List.find?_some hr, by omega, by omega⟩

section

variable (hlayout : layout (mergedSizes (units.map (·.object))) placements = .ok regions)

include hlayout

theorem end_le (h : Share units regions i u name b n) :
    n + u.object.sizeOf name ≤ addressSpace := by
  obtain ⟨r, hr, rfl, -, hend⟩ := h.exists_region
  have hregion := end_le_of_layout (nodup_mergedSizes _) hlayout hr
  omega

/-- A place in a share, or at its end. -/
theorem isSum_add (h : Share units regions i u name b n) {x : Word}
    (hx : x.toNat ≤ u.object.sizeOf name)
    (hend : n + x.toNat = addressSpace → AtEnd units regions) :
    IsSum units regions (b + x) (n + x.toNat) := by
  refine ⟨?_, ?_, hend⟩
  · rw [h.word_eq, UInt32.ofNat_add, UInt32.ofNat_toNat]
  · have hle := h.end_le hlayout
    omega

theorem isSum_base (h : Share units regions i u name b n) : IsSum units regions b n := by
  refine ⟨h.word_eq, ?_, fun hn => .share (hn ▸ h)⟩
  have hle := h.end_le hlayout
  omega

/-- The place of a word is before the end of its share. -/
theorem isSum_of_within (h : Share units regions i u name b n) {x : Word}
    (hx : x.toNat + 4 ≤ u.object.sizeOf name) : IsSum units regions (b + x) (n + x.toNat) := by
  have hle := h.end_le hlayout
  refine h.isSum_add hlayout (by omega) fun hend => ?_
  omega

theorem isSum_of_label (h : Share units regions i u name b n) {label : String} {offset : Nat}
    (hlabel : u.HasLabel label name offset) :
    IsSum units regions (b + UInt32.ofNat offset) (n + (UInt32.ofNat offset).toNat) := by
  have hexact := Translation.toNat_of_label hlabel
  exact h.isSum_add hlayout (hexact.trans_le (Translation.offset_le_of_label hlabel))
    fun hend => .label h hlabel (hexact ▸ hend)

end

end Share

section

variable {units : List Translation} {regions : List Region} {placements : List Placement}
  (hlayout : layout (mergedSizes (units.map (·.object))) placements = .ok regions)

include hlayout

theorem SymbolAt.isSum {e : ObjectSymbol} {v : Word} {n : Nat}
    (h : SymbolAt units regions e v n) : IsSum units regions v n := by
  obtain ⟨hshare, hmem, howner, -⟩ := h
  rcases Translation.place_of_symbol hmem howner with hvalue | ⟨offset, hlabel, hvalue⟩
  · simpa [hvalue] using hshare.isSum_base hlayout
  · rw [hvalue]
    exact hshare.isSum_of_label hlayout hlabel

theorem PatchedTo.isSum {i : Nat} {u : Translation} {name : String} {r : Relocation} {v : Word}
    {n : Nat} (hr : u.HasRelocation name r) (h : PatchedTo units regions i u r v n) :
    IsSum units regions v n := by
  obtain ⟨_, hdata, hr⟩ := hr
  obtain ⟨origin, hrecord⟩ := Translation.exists_record_of_data hdata hr
  cases h with
  | sectionRelative hkind hshare =>
    cases hrecord with
    | ofSection _ _ _ haddend => simpa [haddend] using hshare.isSum_base hlayout
    | ofLabel sectionName offset hlabel _ hsymbol haddend =>
      rw [haddend]
      exact hshare.isSum_of_label hlayout (hsymbol ▸ hlabel)
    | ofGlobal _ habsolute => cases hkind.symm.trans habsolute
  | absolute hkind _ _ hsymbol =>
    simpa [hrecord.addend_of_absolute hkind] using hsymbol.isSum hlayout

/-- What a link computes is what it should be, modulo 2^32. -/
theorem Computes.isSum {v : Word} {n : Nat} (h : Computes units regions v n) :
    IsSum units regions v n := by
  cases h with
  | share h => exact h.isSum_base hlayout
  | symbol h => exact h.isSum hlayout
  | word h hword => exact h.isSum_of_within hlayout hword.within
  | relocation h hr => exact h.isSum_of_within hlayout hr.within
  | patch _ hr h => exact h.isSum hlayout hr

end

end Toolchain32
