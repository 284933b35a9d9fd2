import Mathlib.Data.List.Nodup

/-!
# Names in the order of their first mention

A list of names grows by the names that are mentioned: a new one goes to the end, and one that is
there keeps its place. `mention_eq` says what the list is after some mentions.
-/

namespace Toolchain32

variable {names more : List String} {name other : String}

def mentionOne (names : List String) (name : String) : List String :=
  if name ∈ names then names else names ++ [name]

def mention (names more : List String) : List String := more.foldl mentionOne names

theorem mention_append (names more rest : List String) :
    mention names (more ++ rest) = mention (mention names more) rest := List.foldl_append

theorem mem_mentionOne : other ∈ mentionOne names name ↔ other ∈ names ∨ other = name := by
  unfold mentionOne
  split
  · exact ⟨.inl, fun h => h.elim id fun h => h ▸ ‹_›⟩
  · simp

theorem nodup_mentionOne (h : names.Nodup) (name : String) : (mentionOne names name).Nodup := by
  unfold mentionOne
  split
  · exact h
  · rename_i hname
    refine List.nodup_append.mpr ⟨h, by simp, ?_⟩
    rintro a ha b hb rfl
    exact hname (List.mem_singleton.mp hb ▸ ha)

/-- Behind the names stand the new ones, each of them where it was mentioned first. -/
theorem mention_eq (names more : List String) :
    mention names more = names ++ (more.filter (· ∉ names)).eraseDups := by
  induction more generalizing names with
  | nil => simp [mention]
  | cons name rest ih =>
    have hstep : mention names (name :: rest) = mention (mentionOne names name) rest := rfl
    rw [hstep, ih]
    unfold mentionOne
    split
    · rename_i hname
      rw [List.filter_cons_of_neg (by simpa using hname)]
    · rename_i hname
      have hrest : rest.filter (· ∉ names ++ [name]) =
          (rest.filter (· ∉ names)).filter fun other => !other == name := by
        rw [List.filter_filter]
        exact List.filter_congr fun other _ => by by_cases h : other = name <;> simp [h]
      rw [List.filter_cons_of_pos (by simpa using hname), List.eraseDups_cons, hrest,
        List.append_assoc, List.singleton_append]

theorem mem_mention : other ∈ mention names more ↔ other ∈ names ∨ other ∈ more := by
  rw [mention_eq, List.mem_append, List.mem_eraseDups, List.mem_filter]
  by_cases h : other ∈ names <;> simp [h]

end Toolchain32
