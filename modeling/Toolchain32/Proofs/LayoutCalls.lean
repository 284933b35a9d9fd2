import Toolchain32.Link.Layout

/-!
# Calls on a layout

What a call answers and where it leaves the layout. A region is added and the top is raised after
everything that may fail, so a call that fails leaves the layout alone: `outcome_claim`,
`outcome_place` and `outcome_append`.
-/

namespace Toolchain32

variable (l : Layout) (name : String) (address : Word) (start size : Nat)

def Layout.push : Layout :=
  ⟨l.regions ++ [⟨name, UInt32.ofNat start, UInt32.ofNat size⟩], max l.top (start + size)⟩

namespace LayoutCall

variable {α β : Type}

theorem outcome_get : outcome get l = (.ok l, l) := rfl

theorem outcome_bind (call : LayoutCall α) (rest : α → LayoutCall β) :
    outcome (call >>= rest) l =
      match call.outcome l with
      | (.ok a, next) => (rest a).outcome next
      | (.error e, next) => (.error e, next) := by
  change (ExceptT.bindCont rest (call l).1 : StateM Layout _) (call l).2 = match call l with
    | (.ok a, next) => (rest a).outcome next
    | (.error e, next) => (.error e, next)
  rcases call l with ⟨answer, next⟩
  cases answer with
  | ok a => rfl
  | error e => rfl

theorem outcome_map (f : α → β) (call : LayoutCall α) :
    outcome (f <$> call) l = ((call.outcome l).1.map f, (call.outcome l).2) := by
  change outcome (call >>= fun a => pure (f a)) l = _
  rw [outcome_bind]
  rcases call.outcome l with ⟨answer, next⟩
  cases answer with
  | ok a => rfl
  | error e => rfl

theorem outcome_claim : (claim name start size).outcome l =
    if start + size ≤ addressSpace then (.ok (), l.push name start size)
    else (.error (.addressOverflow name start size), l) := by
  by_cases hfits : start + size ≤ addressSpace
  · rw [if_pos hfits]
    simp only [claim, if_neg (Nat.not_lt.mpr hfits)]
    rfl
  · rw [if_neg hfits]
    simp only [claim, if_pos (Nat.not_le.mp hfits)]
    rfl

theorem outcome_place : (place name address size).outcome l =
    match l.regions.getLast? with
    | some previous =>
      if address.toNat < previous.stop then
        (.error (.placementOverlap name address previous.name previous.stop), l)
      else (claim name address.toNat size).outcome l
    | none => (claim name address.toNat size).outcome l := by
  rw [place, outcome_bind, outcome_get]
  dsimp only
  cases l.regions.getLast? with
  | none => rfl
  | some previous =>
    by_cases hbelow : address.toNat < previous.stop
    · simp only [if_pos hbelow]
      rfl
    · simp only [if_neg hbelow]

theorem outcome_append : (append name size).outcome l =
    if l.top < addressSpace ∧ l.top + size ≤ addressSpace then
      (.ok (UInt32.ofNat l.top), l.push name l.top size)
    else (.error (.addressOverflow name l.top size), l) := by
  rw [append, outcome_bind, outcome_get]
  by_cases hroom : l.top < addressSpace
  · simp only [if_neg (Nat.not_le.mpr hroom), outcome_bind, outcome_claim, hroom, true_and]
    by_cases hfits : l.top + size ≤ addressSpace
    · simp only [if_pos hfits]
      rfl
    · simp only [if_neg hfits]
  · simp only [if_pos (Nat.not_lt.mp hroom), hroom, false_and, if_false]
    rfl

end LayoutCall

namespace Layout

theorem claim_eq : l.claim name start size =
    if start + size ≤ addressSpace then .ok (l.push name start size)
    else .error (.addressOverflow name start size) := by
  rw [claim, after, LayoutCall.outcome_claim]
  by_cases hfits : start + size ≤ addressSpace
  · simp only [if_pos hfits]
  · simp only [if_neg hfits]

theorem place_eq : l.place name address size =
    match l.regions.getLast? with
    | some previous =>
      if address.toNat < previous.stop then
        .error (.placementOverlap name address previous.name previous.stop)
      else l.claim name address.toNat size
    | none => l.claim name address.toNat size := by
  rw [place, after, LayoutCall.outcome_place]
  cases l.regions.getLast? with
  | none => rfl
  | some previous =>
    by_cases hbelow : address.toNat < previous.stop
    · simp only [if_pos hbelow]
    · simp only [if_neg hbelow]
      rfl

theorem append_eq : l.append name size =
    if l.top < addressSpace ∧ l.top + size ≤ addressSpace then .ok (l.push name l.top size)
    else .error (.addressOverflow name l.top size) := by
  rw [append, after, LayoutCall.outcome_append]
  by_cases hroom : l.top < addressSpace ∧ l.top + size ≤ addressSpace
  · simp only [if_pos hroom]
  · simp only [if_neg hroom]

end Layout

end Toolchain32
