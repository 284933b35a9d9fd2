/-!
# Computations that may fail

What it takes for a computation that may fail to have given a result, and which errors it may fail
with: `FailsWith`.
-/

namespace Toolchain32.Fallible

variable {ε α β : Type} {x : Except ε α}

theorem bind_eq_ok {f : α → Except ε β} {b : β} :
    (x >>= f) = .ok b ↔ ∃ a, x = .ok a ∧ f a = .ok b := by
  cases x <;> simp [bind, Except.bind]

theorem exists_bind_eq_ok {f : α → Except ε β} :
    (∃ b, (x >>= f) = .ok b) ↔ ∃ a, x = .ok a ∧ ∃ b, f a = .ok b := by
  cases x <;> simp [bind, Except.bind]

theorem bind_eq_error {f : α → Except ε β} {e : ε} :
    (x >>= f) = .error e ↔ x = .error e ∨ ∃ a, x = .ok a ∧ f a = .error e := by
  cases x <;> simp [bind, Except.bind]

theorem map_eq_ok {f : α → β} {b : β} : x.map f = .ok b ↔ ∃ a, x = .ok a ∧ f a = b := by
  cases x <;> simp [Except.map]

theorem exists_map_eq_ok {f : α → β} : (∃ b, x.map f = .ok b) ↔ ∃ a, x = .ok a := by
  cases x <;> simp [Except.map]

theorem map_eq_error {f : α → β} {e : ε} : x.map f = .error e ↔ x = .error e := by
  cases x <;> simp [Except.map]

theorem eq_ok_get (h : x.toOption.isSome = true) : x = .ok (x.toOption.get h) := by
  cases x with
  | error e => cases h
  | ok a => rfl

/-- Every result of a list of computations is the result of one of them. -/
theorem exists_of_mem_mapM {f : α → Except ε β} {as : List α} {bs : List β}
    (h : as.mapM f = .ok bs) {b : β} (hb : b ∈ bs) : ∃ a ∈ as, f a = .ok b := by
  induction as generalizing bs with
  | nil =>
    cases h
    cases hb
  | cons a as ih =>
    rw [List.mapM_cons, bind_eq_ok] at h
    obtain ⟨first, hfirst, h⟩ := h
    rw [bind_eq_ok] at h
    obtain ⟨rest, hrest, h⟩ := h
    cases h
    rcases List.mem_cons.mp hb with rfl | hb
    · exact ⟨a, List.mem_cons_self, hfirst⟩
    · obtain ⟨a', ha', hf⟩ := ih hrest hb
      exact ⟨a', List.mem_cons_of_mem _ ha', hf⟩

theorem mapM_append_cons {f : α → Except ε β} {before after : List α} {a : α} {bs : List β}
    (h : (before ++ a :: after).mapM f = .ok bs) :
    ∃ xs b ys, before.mapM f = .ok xs ∧ f a = .ok b ∧ after.mapM f = .ok ys ∧
      bs = xs ++ b :: ys := by
  rw [List.mapM_append, bind_eq_ok] at h
  obtain ⟨xs, hxs, h⟩ := h
  rw [List.mapM_cons, bind_eq_ok] at h
  obtain ⟨_, h, hbs⟩ := h
  obtain ⟨b, hb, h⟩ := bind_eq_ok.mp h
  obtain ⟨ys, hys, h⟩ := bind_eq_ok.mp h
  cases h
  exact ⟨xs, b, ys, hxs, hb, hys, (Except.ok.inj hbs).symm⟩

/-- The results of a list of computations stand in the order of the list. -/
theorem mapM_zip {f : α → Except ε β} {as : List α} {bs : List β} (h : as.mapM f = .ok bs) :
    as.length = bs.length ∧ ∀ p ∈ as.zip bs, f p.1 = .ok p.2 := by
  induction as generalizing bs with
  | nil =>
    cases h
    exact ⟨rfl, by rintro _ ⟨⟩⟩
  | cons a as ih =>
    rw [List.mapM_cons, bind_eq_ok] at h
    obtain ⟨b, hb, h⟩ := h
    obtain ⟨rest, hrest, h⟩ := bind_eq_ok.mp h
    cases h
    obtain ⟨hlength, hzip⟩ := ih hrest
    refine ⟨congrArg (· + 1) hlength, fun p hp => ?_⟩
    rcases List.mem_cons.mp hp with rfl | hp
    · exact hb
    · exact hzip p hp

theorem exists_mapM {f : α → Except ε β} {as : List α} (h : ∀ a ∈ as, ∃ b, f a = .ok b) :
    ∃ bs, as.mapM f = .ok bs := by
  induction as with
  | nil => exact ⟨[], rfl⟩
  | cons a as ih =>
    obtain ⟨b, hb⟩ := h a List.mem_cons_self
    obtain ⟨bs, hbs⟩ := ih fun a ha => h a (List.mem_cons_of_mem _ ha)
    exact ⟨b :: bs, by rw [List.mapM_cons, hb, hbs]; rfl⟩

theorem forM_eq_ok {f : α → Except ε Unit} {as : List α} :
    as.forM f = .ok () ↔ ∀ a ∈ as, f a = .ok () := by
  induction as with
  | nil => exact ⟨fun _ _ ha => absurd ha List.not_mem_nil, fun _ => rfl⟩
  | cons a as ih =>
    change (f a >>= fun _ => as.forM f) = .ok () ↔ _
    rw [bind_eq_ok, List.forall_mem_cons, ← ih]
    exact ⟨fun ⟨(), h⟩ => h, fun h => ⟨(), h⟩⟩

/-- What every step keeps, a sequence of steps keeps. -/
theorem foldlM_preserves {P : β → Prop} {f : β → α → Except ε β} {as : List α} {b b' : β}
    (hf : ∀ a ∈ as, ∀ b b', P b → f b a = .ok b' → P b') (hb : P b)
    (h : as.foldlM f b = .ok b') : P b' := by
  induction as generalizing b with
  | nil =>
    cases h
    exact hb
  | cons a rest ih =>
    rw [List.foldlM_cons] at h
    obtain ⟨b₁, hfirst, hrest⟩ := bind_eq_ok.mp h
    exact ih (fun a ha => hf a (List.mem_cons_of_mem _ ha)) (hf a List.mem_cons_self b b₁ hb hfirst)
      hrest

/-- A sequence of steps is completed if each of them is, wherever the steps before it lead. -/
theorem exists_foldlM_iff {P : β → Prop} {Q : α → Prop} {f : β → α → Except ε β}
    (hok : ∀ b a, P b → ((∃ b', f b a = .ok b') ↔ Q a))
    (hf : ∀ b a b', P b → f b a = .ok b' → P b') {b : β} (hb : P b) (as : List α) :
    (∃ b', as.foldlM f b = .ok b') ↔ ∀ a ∈ as, Q a := by
  induction as generalizing b with
  | nil => exact ⟨fun _ _ ha => absurd ha List.not_mem_nil, fun _ => ⟨b, rfl⟩⟩
  | cons a rest ih =>
    rw [List.forall_mem_cons, List.foldlM_cons]
    constructor
    · rintro ⟨b', h⟩
      obtain ⟨b₁, hfirst, hrest⟩ := bind_eq_ok.mp h
      exact ⟨(hok b a hb).mp ⟨b₁, hfirst⟩, (ih (hf b a b₁ hb hfirst)).mp ⟨b', hrest⟩⟩
    · rintro ⟨hfirst, hrest⟩
      obtain ⟨b₁, hfirst⟩ := (hok b a hb).mpr hfirst
      obtain ⟨b', hrest⟩ := (ih (hf b a b₁ hb hfirst)).mpr hrest
      exact ⟨b', bind_eq_ok.mpr ⟨b₁, hfirst, hrest⟩⟩

structure FailsWith (P : ε → Prop) (x : Except ε α) : Prop where
  property : ∀ e, x = .error e → P e

namespace FailsWith

variable {P : ε → Prop}

theorem ok (a : α) : FailsWith P (.ok a) := ⟨by rintro _ ⟨⟩⟩

theorem error {e : ε} (h : P e) : FailsWith P (.error e : Except ε α) where
  property := by
    rintro _ ⟨rfl⟩
    exact h

theorem bind {f : α → Except ε β} (hx : FailsWith P x) (hf : ∀ a, FailsWith P (f a)) :
    FailsWith P (x >>= f) where
  property e h := by
    rcases bind_eq_error.mp h with h | ⟨a, -, h⟩
    · exact hx.property e h
    · exact (hf a).property e h

theorem map {f : α → β} (hx : FailsWith P x) : FailsWith P (x.map f) where
  property e h := hx.property e (map_eq_error.mp h)

theorem foldlM {f : β → α → Except ε β} (hf : ∀ b a, FailsWith P (f b a)) (as : List α) (b : β) :
    FailsWith P (as.foldlM f b) := by
  induction as generalizing b with
  | nil => exact ok b
  | cons a rest ih =>
    rw [List.foldlM_cons]
    exact (hf b a).bind ih

end FailsWith

end Toolchain32.Fallible
