import Toolchain32.Proofs.SymbolTables

/-!
# Histories of a symbol table

Names are entered and bound in any order, and a name may be entered again. What the table holds then
can be read off the calls: the id of an entry is the number of the push that made it, its binding is
the last one that its name was given before it was entered again, and a name leads to its latest
push. One call keeps that (`Follows.apply`), so any calls do: `recalls_of_calls`.
-/

namespace Toolchain32

structure SymbolDraft where
  name : String
  value : Word
  kind : SymbolKind
  owner : Option Nat
  binding : Binding
  deriving DecidableEq, Repr

def SymbolDraft.entry (d : SymbolDraft) (id : Nat) (binding : Binding) : ObjectSymbol where
  id := id
  name := d.name
  value := d.value
  kind := d.kind
  owner := match d.kind with
    | .ofSection => id
    | .plain => d.owner.getD 0
  binding := binding

/-- A change to a table: a new entry, or a binding for the entry that a name is looked up at. -/
inductive SymbolCall
  | push (d : SymbolDraft)
  | bind (name : String) (binding : Binding)
  deriving DecidableEq, Repr

namespace SymbolCall

variable {calls later : List SymbolCall} {call : SymbolCall} {d : SymbolDraft} {name : String}
  {id : Nat}

def apply (t : SymbolTable) : SymbolCall → SymbolTable
  | push d => t.push d.name d.value d.kind d.owner d.binding
  | bind name binding => t.bind name binding

def pushes : List SymbolCall → List SymbolDraft
  | [] => []
  | push d :: rest => d :: pushes rest
  | bind _ _ :: rest => pushes rest

def names (calls : List SymbolCall) : List String := (pushes calls).map (·.name)

/-- The binding of an entry behind more calls: a push of its name takes the name away from it. -/
def bindingAfter (name : String) (binding : Binding) : List SymbolCall → Binding
  | [] => binding
  | push d :: rest => if d.name = name then binding else bindingAfter name binding rest
  | bind n b :: rest => bindingAfter name (if n = name then b else binding) rest

/-- The push of the given number, with the calls behind it. -/
def HasPush (calls : List SymbolCall) (id : Nat) (d : SymbolDraft) (later : List SymbolCall) :
    Prop :=
  ∃ earlier, calls = earlier ++ push d :: later ∧ id = (pushes earlier).length + 1

def IsLatest (calls : List SymbolCall) (name : String) (id : Nat) : Prop :=
  ∃ d later, HasPush calls id d later ∧ d.name = name ∧ name ∉ names later

theorem pushes_append (calls rest : List SymbolCall) :
    pushes (calls ++ rest) = pushes calls ++ pushes rest := by
  induction calls with
  | nil => rfl
  | cons call calls ih =>
    cases call with
    | push d => exact congrArg (d :: ·) ih
    | bind n b => exact ih

theorem names_append (calls rest : List SymbolCall) :
    names (calls ++ rest) = names calls ++ names rest := by
  rw [names, pushes_append, List.map_append, names, names]

theorem bindingAfter_push (name : String) (binding : Binding) (calls : List SymbolCall)
    (d : SymbolDraft) :
    bindingAfter name binding (calls ++ [push d]) = bindingAfter name binding calls := by
  induction calls generalizing binding with
  | nil => exact ite_self binding
  | cons call calls ih =>
    cases call with
    | push other =>
      rw [List.cons_append, bindingAfter, bindingAfter, ih]
    | bind n b => exact ih _

theorem bindingAfter_bind (name n : String) (binding b : Binding) (calls : List SymbolCall) :
    bindingAfter name binding (calls ++ [bind n b]) =
      if n = name ∧ name ∉ names calls then b else bindingAfter name binding calls := by
  induction calls generalizing binding with
  | nil => simp [bindingAfter, names, pushes]
  | cons call calls ih =>
    cases call with
    | push other =>
      by_cases hname : other.name = name
      · simp [bindingAfter, names, pushes, hname]
      · have hmem : name ∉ names (push other :: calls) ↔ name ∉ names calls := by
          simp [names, pushes, Ne.symm hname]
        rw [List.cons_append, bindingAfter, if_neg hname, ih, bindingAfter, if_neg hname]
        simp only [hmem]
    | bind m b' => exact ih _

theorem hasPush_concat :
    HasPush (calls ++ [call]) id d later ↔
      (call = push d ∧ later = [] ∧ id = (pushes calls).length + 1) ∨
        ∃ before, later = before ++ [call] ∧ HasPush calls id d before := by
  constructor
  · rintro ⟨earlier, hsplit, rfl⟩
    rcases List.eq_nil_or_concat later with rfl | ⟨before, last, rfl⟩
    · obtain ⟨rfl, hcall⟩ := List.append_inj' hsplit rfl
      exact .inl ⟨List.singleton_inj.mp hcall, rfl, rfl⟩
    · rw [List.concat_eq_append, ← List.cons_append, ← List.append_assoc] at hsplit
      obtain ⟨rfl, hcall⟩ := List.append_inj' hsplit rfl
      exact .inr ⟨before, by rw [List.concat_eq_append, hcall], earlier, rfl, rfl⟩
  · rintro (⟨rfl, rfl, rfl⟩ | ⟨before, rfl, earlier, rfl, rfl⟩)
    · exact ⟨calls, rfl, rfl⟩
    · exact ⟨earlier, by simp, rfl⟩

theorem pushes_concat_bind (calls : List SymbolCall) (n : String) (b : Binding) :
    pushes (calls ++ [bind n b]) = pushes calls := by
  rw [pushes_append]
  exact List.append_nil _

theorem names_concat_bind (calls : List SymbolCall) (n : String) (b : Binding) :
    names (calls ++ [bind n b]) = names calls :=
  congrArg (List.map SymbolDraft.name) (pushes_concat_bind calls n b)

theorem isLatest_bind {n : String} {b : Binding} :
    IsLatest (calls ++ [bind n b]) name id ↔ IsLatest calls name id := by
  constructor
  · rintro ⟨d, later, hpush, hname, hlast⟩
    rcases hasPush_concat.mp hpush with ⟨hcall, -⟩ | ⟨before, rfl, hbefore⟩
    · cases hcall
    · exact ⟨d, before, hbefore, hname, names_concat_bind before n b ▸ hlast⟩
  · rintro ⟨d, before, hbefore, hname, hlast⟩
    exact ⟨d, before ++ [bind n b], hasPush_concat.mpr (.inr ⟨before, rfl, hbefore⟩), hname,
      (names_concat_bind before n b).symm ▸ hlast⟩

theorem HasPush.pos (h : HasPush calls id d later) : 0 < id := by
  obtain ⟨earlier, -, rfl⟩ := h
  exact Nat.succ_pos _

theorem HasPush.le_length (h : HasPush calls id d later) : id ≤ (pushes calls).length := by
  obtain ⟨earlier, rfl, rfl⟩ := h
  rw [pushes_append, List.length_append]
  exact Nat.add_le_add_left (Nat.succ_pos _) _

/-- The pushes behind a push go on counting. -/
theorem HasPush.behind (h : HasPush calls id d later) {n : Nat} {d' : SymbolDraft}
    {rest : List SymbolCall} (h' : HasPush later n d' rest) : HasPush calls (id + n) d' rest := by
  obtain ⟨earlier, rfl, rfl⟩ := h
  obtain ⟨between, rfl, rfl⟩ := h'
  refine ⟨earlier ++ push d :: between, by simp, ?_⟩
  rw [pushes_append, pushes, List.length_append, List.length_cons]
  omega

theorem hasPush_head (d : SymbolDraft) (rest : List SymbolCall) :
    HasPush (push d :: rest) 1 d rest := ⟨[], rfl, rfl⟩

theorem HasPush.bind_cons (h : HasPush calls id d later) (n : String) (b : Binding) :
    HasPush (bind n b :: calls) id d later := by
  obtain ⟨earlier, rfl, rfl⟩ := h
  exact ⟨bind n b :: earlier, rfl, rfl⟩

theorem exists_hasPush {n : Nat} (h : (pushes calls)[n]? = some d) :
    ∃ later, HasPush calls (n + 1) d later := by
  induction calls generalizing n with
  | nil => cases h
  | cons call rest ih =>
    cases call with
    | push first =>
      cases n with
      | zero =>
        obtain rfl := Option.some.inj h
        exact ⟨rest, hasPush_head first rest⟩
      | succ n =>
        obtain ⟨later, hlater⟩ := ih h
        rw [Nat.add_comm]
        exact ⟨later, (hasPush_head first rest).behind hlater⟩
    | bind m b =>
      obtain ⟨later, hlater⟩ := ih h
      exact ⟨later, hlater.bind_cons m b⟩

/-- A name that is entered is entered for the last time. -/
theorem exists_isLatest (h : name ∈ names calls) : ∃ id, IsLatest calls name id := by
  induction calls with
  | nil => cases h
  | cons call rest ih =>
    cases call with
    | push first =>
      by_cases hrest : name ∈ names rest
      · obtain ⟨id, d, later, hpush, hlast⟩ := ih hrest
        exact ⟨1 + id, d, later, (hasPush_head first rest).behind hpush, hlast⟩
      · have hname : name = first.name := (List.mem_cons.mp h).resolve_right hrest
        exact ⟨1, first, rest, hasPush_head first rest, hname.symm, hrest⟩
    | bind m b =>
      obtain ⟨id, d, later, hpush, hlast⟩ := ih h
      exact ⟨id, d, later, hpush.bind_cons m b, hlast⟩

/-- What is the latest push among the calls behind a push is the latest one of all. -/
theorem IsLatest.behind (h : HasPush calls id d later) {n : Nat} (h' : IsLatest later name n) :
    IsLatest calls name (id + n) := by
  obtain ⟨d', rest, hpush, hlast⟩ := h'
  exact ⟨d', rest, h.behind hpush, hlast⟩

end SymbolCall

namespace SymbolTable

open SymbolCall

variable {t : SymbolTable} {calls : List SymbolCall} {name : String} {id : Nat}

def after (t : SymbolTable) (calls : List SymbolCall) : SymbolTable :=
  calls.foldl SymbolCall.apply t

structure Follows (t : SymbolTable) (calls : List SymbolCall) : Prop where
  null : t.byId? 0 = some .null
  indexed : t.Indexed
  length : t.toList.length = (pushes calls).length + 1
  entry : ∀ (id : Nat) (d : SymbolDraft) (later : List SymbolCall), HasPush calls id d later →
    t.byId? id = some (d.entry id (bindingAfter d.name d.binding later))
  latest : ∀ (name : String) (id : Nat), IsLatest calls name id → t.get? name = t.byId? id
  missing : ∀ name : String, name ∉ names calls → t.get? name = none

theorem follows_empty : empty.Follows [] where
  null := rfl
  indexed := indexed_empty
  length := rfl
  entry := by
    rintro _ _ _ ⟨earlier, hsplit, -⟩
    simp at hsplit
  latest := by
    rintro _ _ ⟨_, _, ⟨earlier, hsplit, -⟩, -⟩
    simp at hsplit
  missing _ _ := get?_eq_none_iff.mpr (by rintro ⟨⟩)

theorem Follows.nextId (h : t.Follows calls) : t.nextId = (pushes calls).length + 1 :=
  (length_toList t).symm.trans h.length

theorem Follows.push (h : t.Follows calls) (d : SymbolDraft) :
    (t.push d.name d.value d.kind d.owner d.binding).Follows (calls ++ [.push d]) where
  null := byId?_push d.value d.kind d.owner h.null
  indexed := h.indexed.push d.value d.kind d.owner
  length := by
    rw [toList_push, pushes_append, List.length_append, List.length_append, h.length]
    rfl
  entry id d' later hpush := by
    rw [byId?_push_eq, h.nextId]
    rcases hasPush_concat.mp hpush with ⟨hcall, rfl, rfl⟩ | ⟨before, rfl, hbefore⟩
    · cases hcall
      rw [if_pos rfl, ← h.nextId]
      rfl
    · have hle := hbefore.le_length
      rw [if_neg (by omega), bindingAfter_push]
      exact h.entry id d' before hbefore
  latest name id hlatest := by
    obtain ⟨d', later, hpush, rfl, hlast⟩ := hlatest
    rw [byId?_push_eq, get?_push, h.nextId]
    rcases hasPush_concat.mp hpush with ⟨hcall, rfl, rfl⟩ | ⟨before, rfl, hbefore⟩
    · cases hcall
      rw [if_pos rfl, if_pos rfl]
    · rw [names_append, List.mem_append, not_or] at hlast
      have hname : d'.name ≠ d.name := fun heq => hlast.2 (heq ▸ List.mem_cons_self)
      have hle := hbefore.le_length
      rw [if_neg hname, if_neg (by omega)]
      exact h.latest d'.name id ⟨d', before, hbefore, rfl, hlast.1⟩
  missing name hname := by
    rw [names_append, List.mem_append, not_or] at hname
    have hne : name ≠ d.name := fun heq => hname.2 (heq ▸ List.mem_cons_self)
    rw [get?_push, if_neg hne]
    exact h.missing name hname.1

/-- A name leads to a push exactly if it is the latest one of that name. -/
theorem Follows.id_eq_iff (h : t.Follows calls) {found : ObjectSymbol}
    (hfound : t.get? name = some found) {d : SymbolDraft} {later : List SymbolCall}
    (hpush : HasPush calls id d later) :
    id = found.id ↔ name = d.name ∧ d.name ∉ names later := by
  constructor
  · rintro rfl
    have hentry := h.entry _ d later hpush
    rw [(h.indexed.id_of_get? hfound).2] at hentry
    have hsame : name = d.name :=
      (mem_of_get? hfound).2.symm.trans (congrArg _ (Option.some.inj hentry))
    refine ⟨hsame, fun hagain => ?_⟩
    -- the push of the name among the later calls would be found in place of this one
    obtain ⟨n, hlatest⟩ := exists_isLatest hagain
    have hn : 0 < n := by
      obtain ⟨_, _, hlater, -⟩ := hlatest
      exact hlater.pos
    have hid := h.latest d.name _ (hlatest.behind hpush)
    rw [← hsame, hfound] at hid
    have := h.indexed _ _ hid.symm
    omega
  · rintro ⟨rfl, hlast⟩
    have hid := h.latest d.name id ⟨d, later, hpush, rfl, hlast⟩
    rw [hfound] at hid
    exact (h.indexed _ _ hid.symm).symm

theorem Follows.latest_eq_iff (h : t.Follows calls) {found : ObjectSymbol}
    (hfound : t.get? name = some found) {other : String} (hlatest : IsLatest calls other id) :
    id = found.id ↔ other = name := by
  obtain ⟨d, later, hpush, rfl, hlast⟩ := hlatest
  rw [h.id_eq_iff hfound hpush, and_iff_left hlast, eq_comm]

theorem Follows.bind_found (h : t.Follows calls) {found : ObjectSymbol}
    (hfound : t.get? name = some found) (binding : Binding) :
    (t.bind name binding).Follows (calls ++ [.bind name binding]) where
  null := by
    have hid := (h.indexed.id_of_get? hfound).1
    rw [byId?_bind h.indexed hfound, if_neg (Ne.symm hid), h.null]
  indexed := h.indexed.bind hfound binding
  length := by
    rw [toList_bind h.indexed hfound, List.length_map, h.length, pushes_concat_bind]
  entry id d later hpush := by
    rcases hasPush_concat.mp hpush with ⟨hcall, -⟩ | ⟨before, rfl, hbefore⟩
    · cases hcall
    · have hentry := h.entry id d before hbefore
      rw [byId?_bind h.indexed hfound, bindingAfter_bind]
      by_cases hid : id = found.id
      · rw [if_pos hid, if_pos ((h.id_eq_iff hfound hbefore).mp hid)]
        rw [hid, (h.indexed.id_of_get? hfound).2] at hentry
        rw [Option.some.inj hentry, hid]
        rfl
      · rw [if_neg hid, if_neg fun hreached => hid ((h.id_eq_iff hfound hbefore).mpr hreached)]
        exact hentry
  latest other id hlatest := by
    have hbefore := isLatest_bind.mp hlatest
    rw [get?_bind h.indexed hfound, byId?_bind h.indexed hfound, h.latest other id hbefore]
    simp only [h.latest_eq_iff hfound hbefore]
  missing other hother := by
    rw [names_concat_bind] at hother
    have hne : other ≠ name := by
      rintro rfl
      cases hfound.symm.trans (h.missing other hother)
    rw [get?_bind h.indexed hfound, if_neg hne]
    exact h.missing other hother

/-- A binding for a name that was never entered reaches nothing. -/
theorem Follows.bind_none (h : t.Follows calls) (hnone : t.get? name = none) (binding : Binding) :
    t.Follows (calls ++ [.bind name binding]) where
  null := h.null
  indexed := h.indexed
  length := by
    rw [h.length, pushes_concat_bind]
  entry id d later hpush := by
    rcases hasPush_concat.mp hpush with ⟨hcall, -⟩ | ⟨before, rfl, hbefore⟩
    · cases hcall
    · have hentry := h.entry id d before hbefore
      rw [bindingAfter_bind, if_neg, hentry]
      rintro ⟨rfl, hlast⟩
      have hid := h.latest d.name id ⟨d, before, hbefore, rfl, hlast⟩
      cases hnone.symm.trans (hid.trans hentry)
  latest other id hlatest := h.latest other id (isLatest_bind.mp hlatest)
  missing other hother := h.missing other (names_concat_bind calls name binding ▸ hother)

theorem Follows.apply (h : t.Follows calls) (call : SymbolCall) :
    (call.apply t).Follows (calls ++ [call]) := by
  cases call with
  | push d => exact h.push d
  | bind name binding =>
    cases hfound : t.get? name with
    | none =>
      have hsame : t.bind name binding = t := bind_of_none hfound binding
      change (t.bind name binding).Follows _
      rw [hsame]
      exact h.bind_none hfound binding
    | some found => exact h.bind_found hfound binding

theorem Follows.after (h : t.Follows calls) (more : List SymbolCall) :
    (t.after more).Follows (calls ++ more) := by
  induction more generalizing t calls with
  | nil => exact (List.append_nil calls).symm ▸ h
  | cons call rest ih =>
    rw [List.append_cons]
    exact ih (h.apply call)

structure Recalls (t : SymbolTable) (calls : List SymbolCall) : Prop extends t.Follows calls where
  nextId : t.nextId = (pushes calls).length + 1
  /-- The id of an entry is its place, counted in a word. -/
  word : ∀ (i : Nat) (e : ObjectSymbol), t.toList[i]? = some e → e.id = (UInt32.ofNat i).toNat
  id_lt : ∀ e ∈ t.toList, e.id < t.nextId
  /-- Behind the reserved entry stands what was entered, in order and but for the bindings. -/
  pushed : ∀ (n : Nat) (d : SymbolDraft), (pushes calls)[n]? = some d →
    ∃ binding, t.byId? (n + 1) = some (d.entry (n + 1) binding)
  contains : ∀ name : String, t.contains name = true ↔ name ∈ names calls
  owner : ∀ e ∈ t.toList, e.kind = .ofSection → e.owner = e.id
  /-- A binding for a name changes that of its latest entry, by id as by name. -/
  bind_latest : ∀ (name : String) (id : Nat) (binding : Binding), IsLatest calls name id →
    (∀ i, (t.bind name binding).byId? i =
      if i = id then (t.byId? id).map fun e => { e with binding } else t.byId? i) ∧
    ∀ other, (t.bind name binding).get? other =
      if other = name then (t.byId? id).map fun e => { e with binding } else t.get? other
  bind_missing : ∀ (name : String) (binding : Binding), name ∉ names calls →
    t.bind name binding = t

theorem Follows.exists_pushed (h : t.Follows calls) {n : Nat} {d : SymbolDraft}
    (hd : (pushes calls)[n]? = some d) :
    ∃ binding, t.byId? (n + 1) = some (d.entry (n + 1) binding) := by
  obtain ⟨later, hpush⟩ := exists_hasPush hd
  exact ⟨_, h.entry _ d later hpush⟩

theorem Follows.exists_found (h : t.Follows calls) (hlatest : IsLatest calls name id) :
    ∃ found, t.get? name = some found ∧ t.byId? id = some found ∧ found.id = id := by
  have hget := h.latest name id hlatest
  obtain ⟨d, later, hpush, -, -⟩ := hlatest
  have hentry := h.entry id d later hpush
  exact ⟨_, hget.trans hentry, hentry, rfl⟩

theorem Indexed.id_lt (ht : t.Indexed) {e : ObjectSymbol} (he : e ∈ t.toList) :
    e.id < t.nextId := by
  obtain ⟨i, hi⟩ := List.mem_iff_getElem?.mp he
  have hlt := (List.getElem?_eq_some_iff.mp hi).1
  rw [length_toList] at hlt
  rwa [ht i e hi]

theorem Follows.contains_iff (h : t.Follows calls) :
    t.contains name = true ↔ name ∈ names calls := by
  rw [SymbolTable.contains, Option.isSome_iff_exists]
  constructor
  · rintro ⟨e, he⟩
    by_contra hname
    cases he.symm.trans (h.missing name hname)
  · intro hname
    obtain ⟨id, hlatest⟩ := exists_isLatest hname
    obtain ⟨found, hfound, -⟩ := h.exists_found hlatest
    exact ⟨found, hfound⟩

theorem Follows.owner_of_section (h : t.Follows calls) {e : ObjectSymbol} (he : e ∈ t.toList)
    (hkind : e.kind = .ofSection) : e.owner = e.id := by
  obtain ⟨i, hi⟩ := List.mem_iff_getElem?.mp he
  cases i with
  | zero =>
    cases hi
    cases hkind
  | succ n =>
    have hlt := (List.getElem?_eq_some_iff.mp hi).1
    have hn : n < (pushes calls).length := by
      rw [h.length] at hlt
      omega
    obtain ⟨binding, hentry⟩ := h.exists_pushed (List.getElem?_eq_getElem hn)
    obtain rfl := Option.some.inj (hentry.symm.trans hi)
    change (pushes calls)[n].kind = .ofSection at hkind
    simp only [SymbolDraft.entry, hkind]

theorem Follows.recalls (h : t.Follows calls) (hcount : (pushes calls).length < 0x100000000) :
    t.Recalls calls where
  toFollows := h
  nextId := h.nextId
  word := ids_in_words h.indexed (h.length ▸ hcount)
  id_lt _ := h.indexed.id_lt
  pushed _ _ := h.exists_pushed
  contains _ := h.contains_iff
  owner _ := h.owner_of_section
  bind_latest name id binding hlatest := by
    obtain ⟨found, hfound, hentry, rfl⟩ := h.exists_found hlatest
    rw [hentry]
    exact ⟨fun _ => byId?_bind h.indexed hfound binding, get?_bind h.indexed hfound binding⟩
  bind_missing name binding hname := bind_of_none (h.missing name hname) binding

/-- Any calls on an empty table can be read off the table behind them, as long as a word holds every
id: the ids are the places, an entry is what its push has entered but for the binding, a name leads
to its latest push, and to bind a name changes the binding of that one entry. -/
theorem recalls_of_calls (calls : List SymbolCall) (hcount : (pushes calls).length < 0x100000000) :
    (empty.after calls).Recalls calls :=
  (follows_empty.after calls).recalls hcount

/-- A section, a name that is entered twice and then bound, and a binding for an unknown name. -/
theorem recalls_of_calls_shadowed :
    let calls : List SymbolCall := [.push ⟨"t", 0, .ofSection, none, .localOnly⟩,
      .push ⟨"a", 4, .plain, some 1, .localOnly⟩, .bind "b" .external,
      .push ⟨"a", 8, .plain, none, .undefined⟩, .bind "a" .global]
    (pushes calls).length < 0x100000000 ∧ (empty.after calls).Recalls calls ∧
      (empty.after calls).toList = [.null, ⟨1, "t", 0, .ofSection, 1, .localOnly⟩,
        ⟨2, "a", 4, .plain, 1, .localOnly⟩, ⟨3, "a", 8, .plain, 0, .global⟩] := by
  intro calls
  have hcount : (pushes calls).length < 0x100000000 := by decide
  exact ⟨hcount, recalls_of_calls calls hcount, rfl⟩

end SymbolTable

end Toolchain32
