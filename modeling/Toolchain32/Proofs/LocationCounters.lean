import Toolchain32.Assembly.Locations
import Toolchain32.Entries
import Toolchain32.Proofs.FirstMentions

/-!
# What moves the location counters

Entering a section moves no counter, and advancing a section moves its own by the bytes put into it.
`Locations.Sound` is what both keep: no section is counted twice, the current section is counted,
and every counter stays within the address space.
-/

namespace Toolchain32.Locations

variable {l l' : Locations} {name other : String} {bytes : Nat}

def names (l : Locations) : List String := l.counters.map (·.1)

theorem isOpened_iff : l.isOpened name = true ↔ name ∈ l.names := by
  simp [isOpened, names]

theorem current_enter : (l.enter name).current = some name := by
  unfold enter; split <;> rfl

theorem names_enter : (l.enter name).names = mentionOne l.names name := by
  unfold enter mentionOne
  by_cases h : name ∈ l.names
  · rw [if_pos (isOpened_iff.mpr h), if_pos h]
    rfl
  · rw [if_neg (mt isOpened_iff.mp h), if_neg h]
    simp [names]

theorem mem_names_enter : other ∈ (l.enter name).names ↔ other ∈ l.names ∨ other = name := by
  rw [names_enter, mem_mentionOne]

theorem counter_enter : (l.enter name).counter other = l.counter other := by
  unfold enter
  split
  · rfl
  · simp only [counter, List.lookup_append]
    cases l.counters.lookup other with
    | some n => rfl
    | none => by_cases h : other == name <;> simp [List.lookup_cons, h]

theorem advance_eq_ok (h : l.advance name bytes = .ok l') :
    l.counter name + bytes < 0x100000000 ∧
      l' = { l with
        counters := l.counters.map fun c => if c.1 = name then (c.1, c.2 + bytes) else c } := by
  unfold advance at h
  split at h
  · exact ⟨‹_›, (Except.ok.inj h).symm⟩
  · cases h

theorem current_advance (h : l.advance name bytes = .ok l') : l'.current = l.current := by
  rw [(advance_eq_ok h).2]

theorem names_advance (h : l.advance name bytes = .ok l') : l'.names = l.names := by
  rw [(advance_eq_ok h).2, names, names, List.map_map]
  refine List.map_congr_left fun c _ => ?_
  change (if c.1 = name then (c.1, c.2 + bytes) else c).1 = c.1
  split <;> rfl

theorem lookup_map_advance (counters : List (String × Nat)) :
    (counters.map fun c => if c.1 = name then (c.1, c.2 + bytes) else c).lookup other =
      (counters.lookup other).map fun n => if other = name then n + bytes else n := by
  induction counters with
  | nil => rfl
  | cons c rest ih =>
    obtain ⟨key, n⟩ := c
    have hmap : (if key = name then (key, n + bytes) else (key, n)) =
        (key, if key = name then n + bytes else n) := by split <;> rfl
    rw [List.map_cons, hmap, lookup_cons_ite, lookup_cons_ite, ih]
    by_cases hkey : other = key <;> simp [hkey]

theorem counter_advance (h : l.advance name bytes = .ok l') (hname : name ∈ l.names) :
    l'.counter other = l.counter other + if other = name then bytes else 0 := by
  rw [(advance_eq_ok h).2, counter, counter, lookup_map_advance]
  by_cases ho : other = name
  · subst ho
    obtain ⟨n, hn⟩ := Option.isSome_iff_exists.mp ((lookup_isSome_iff_mem ..).mpr hname)
    simp [hn]
  · cases l.counters.lookup other <;> simp [ho]

structure Sound (l : Locations) : Prop where
  nodup : l.names.Nodup
  current : ∀ name ∈ l.current, name ∈ l.names
  small : ∀ name, l.counter name < 0x100000000

namespace Sound

theorem empty : Sound .empty where
  nodup := List.nodup_nil
  current := by rintro _ ⟨⟩
  small _ := (by decide : 0 < 0x100000000)

theorem enter (h : l.Sound) (name : String) : (l.enter name).Sound where
  nodup := names_enter ▸ nodup_mentionOne h.nodup name
  current other ho := by
    rw [current_enter] at ho
    exact mem_names_enter.mpr (.inr (Option.some.inj ho).symm)
  small other := by rw [counter_enter]; exact h.small other

theorem advance (hl : l.Sound) (h : l.advance name bytes = .ok l') (hname : name ∈ l.names) :
    l'.Sound where
  nodup := names_advance h ▸ hl.nodup
  current := by rw [current_advance h, names_advance h]; exact hl.current
  small other := by
    rw [counter_advance h hname]
    have hother := hl.small other
    have hbound := (advance_eq_ok h).1
    split
    · rename_i ho
      rwa [ho]
    · omega

end Sound

theorem names_restarted : l.restarted.names = l.names := by
  simp [restarted, names, Function.comp_def]

theorem counter_restarted : l.restarted.counter name = 0 := by
  have h (counters : List (String × Nat)) :
      ((counters.map fun c => (c.1, 0)).lookup name).getD 0 = 0 := by
    induction counters with
    | nil => rfl
    | cons c rest ih =>
      by_cases hc : name == c.1
      · simp [List.lookup_cons, hc]
      · simpa [List.lookup_cons, hc] using ih
  exact h l.counters

theorem Sound.restarted (h : l.Sound) : l.restarted.Sound where
  nodup := names_restarted (l := l) ▸ h.nodup
  current := by rintro _ ⟨⟩
  small name := by rw [counter_restarted]; decide

/-- A counter of a sound list is the one found by its name. -/
theorem counter_of_mem (h : l.Sound) {c : String × Nat} (hc : c ∈ l.counters) :
    l.counter c.1 = c.2 := by
  rw [counter, lookup_eq_of_mem h.nodup hc]
  rfl

end Toolchain32.Locations
