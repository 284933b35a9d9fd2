import Toolchain32.Proofs.LocationWalk

/-!
# Which walks succeed

A walk over a program fails where a line has no section to belong to, where a skip is too large to
be rounded up, or where a section outgrows the address space. `exists_follow_iff` puts this in terms
of the program: of the lines before its first section directive, and of the sums of sizes.
-/

namespace Toolchain32

open Fallible

def Statement.bytes : Statement → Nat
  | .words values => 4 * values.length
  | .skip n => (n.toNat + 3) / 4 * 4
  | .operation op => op.size
  | .global _ | .external _ | .openSection _ | .finish => 0

def Line.bytes (l : Line) : Nat := (l.statement.map Statement.bytes).getD 0

theorem Statement.bytes_of_not_hasContent {s : Statement} (h : s.hasContent = false) :
    s.bytes = 0 := by
  cases s with
  | words values | skip n | operation op => cases h
  | global names | external names | openSection name | finish => rfl

def Line.SkipFits (l : Line) : Prop := ∀ n, l.statement = some (.skip n) → n.toNat ≤ 0xFFFFFFFC

/-- How many bytes a program puts into a section, where `current` is the one that is open at its
begin. -/
def Program.sizeIn (name : String) : Option String → Program → Nat
  | _, [] => 0
  | current, n :: rest =>
    (if current = some name then n.line.bytes else 0) +
      sizeIn name (n.line.opened?.or current) rest

theorem skipBytes_eq_ok {n : Word} {bytes : Nat} :
    skipBytes n = .ok bytes ↔ n.toNat ≤ 0xFFFFFFFC ∧ (Statement.skip n).bytes = bytes := by
  unfold skipBytes
  by_cases h : n.toNat + 3 < 0x100000000
  · have hle : n.toNat ≤ 0xFFFFFFFC := by omega
    rw [if_pos h, Except.ok.injEq, and_iff_right hle]
    rfl
  · have hle : ¬ n.toNat ≤ 0xFFFFFFFC := by omega
    rw [if_neg h]
    exact ⟨nofun, fun hall => absurd hall.1 hle⟩

namespace Locations

variable {implicit : Option String} {l l' : Locations} {name other : String}
  {program : Program} {bytes : Nat}

theorem exists_ensure_iff {e : AssemblyError} :
    (∃ entered, l.ensure implicit e = .ok entered) ↔ l.current.or implicit ≠ none := by
  unfold ensure
  cases l.current <;> cases implicit <;> simp

theorem exists_put_iff (hl : l.Sound) : (∃ l', l.put implicit bytes = .ok l') ↔
    ∃ name, l.current.or implicit = some name ∧ l.counter name + bytes < 0x100000000 := by
  constructor
  · rintro ⟨l', h⟩
    obtain ⟨⟨name, l₁⟩, hensure, hadvance⟩ := bind_eq_ok.mp h
    obtain ⟨-, -, hsection, hcounter⟩ := ensure_eq_ok hl hensure
    exact ⟨name, hsection, hcounter name ▸ (advance_eq_ok hadvance).1⟩
  · rintro ⟨name, hsection, hroom⟩
    obtain ⟨⟨entered, l₁⟩, hensure⟩ := (exists_ensure_iff (e := .contentOutsideSection)).mpr
      (hsection ▸ Option.some_ne_none name)
    obtain ⟨-, -, hsection', hcounter⟩ := ensure_eq_ok hl hensure
    obtain rfl := Option.some.inj (hsection.symm.trans hsection')
    rw [← hcounter] at hroom
    exact ⟨_, bind_eq_ok.mpr ⟨_, hensure, if_pos hroom⟩⟩

theorem counter_put (hl : l.Sound) (h : l.put implicit bytes = .ok l') :
    l'.counter other =
      l.counter other + if l.current.or implicit = some other then bytes else 0 := by
  obtain ⟨⟨name, l₁⟩, hensure, hadvance⟩ := bind_eq_ok.mp h
  obtain ⟨hl₁, hcurrent, hsection, hcounter⟩ := ensure_eq_ok hl hensure
  rw [counter_advance hadvance (hl₁.current name hcurrent), hcounter, hsection]
  simp [eq_comm]

theorem exists_followStatement_iff (hl : l.Sound) {s : Statement} :
    (∃ l', l.followStatement implicit s = .ok l') ↔
      (s.hasContent = true → ∃ name, l.current.or implicit = some name ∧
        l.counter name + s.bytes < 0x100000000) ∧ ∀ n, s = .skip n → n.toNat ≤ 0xFFFFFFFC := by
  cases s with
  | global names | external names | finish | openSection name =>
    simp [followStatement, Statement.hasContent]
  | words values | operation op =>
    refine ⟨fun h => ⟨fun _ => (exists_put_iff hl).mp h, ?_⟩,
      fun h => (exists_put_iff hl).mpr (h.1 rfl)⟩
    intro n hn
    cases hn
  | skip n =>
    constructor
    · rintro ⟨l', h⟩
      obtain ⟨bytes, hbytes, hput⟩ := bind_eq_ok.mp h
      obtain ⟨hn, rfl⟩ := skipBytes_eq_ok.mp hbytes
      refine ⟨fun _ => (exists_put_iff hl).mp ⟨l', hput⟩, ?_⟩
      rintro _ ⟨rfl⟩
      exact hn
    · rintro ⟨hroom, hskip⟩
      obtain ⟨l', hput⟩ := (exists_put_iff hl).mpr (hroom rfl)
      exact ⟨l', bind_eq_ok.mpr ⟨_, skipBytes_eq_ok.mpr ⟨hskip n rfl, rfl⟩, hput⟩⟩

theorem counter_followStatement (hl : l.Sound) {s : Statement}
    (h : l.followStatement implicit s = .ok l') : l'.counter other =
      l.counter other + if l.current.or implicit = some other then s.bytes else 0 := by
  cases s with
  | global names | external names | finish =>
    cases h
    simp [Statement.bytes]
  | openSection name =>
    cases h
    simp [Statement.bytes, counter_enter]
  | words values | operation op => exact counter_put hl h
  | skip n =>
    obtain ⟨bytes, hbytes, h⟩ := bind_eq_ok.mp h
    obtain ⟨-, rfl⟩ := skipBytes_eq_ok.mp hbytes
    exact counter_put hl h

theorem exists_followLabel_iff {label : Option String} :
    (∃ l', l.followLabel implicit label = .ok l') ↔
      (label.isSome = true → l.current.or implicit ≠ none) := by
  cases label with
  | none => simp [followLabel]
  | some name =>
    rw [← exists_ensure_iff (e := .labelOutsideSection name)]
    constructor
    · rintro ⟨l', h⟩ _
      obtain ⟨entered, hensure, -⟩ := map_eq_ok.mp h
      exact ⟨entered, hensure⟩
    · intro h
      obtain ⟨entered, hensure⟩ := h rfl
      exact ⟨_, map_eq_ok.mpr ⟨entered, hensure, rfl⟩⟩

theorem counter_followLine (hl : l.Sound) {line : Line}
    (h : l.followLine implicit line = .ok l') : l'.counter other =
      l.counter other + if l.current.or implicit = some other then line.bytes else 0 := by
  obtain ⟨l₁, hlabel, h⟩ := bind_eq_ok.mp h
  obtain ⟨hl₁, hsection, hcounter⟩ := section_followLabel hl hlabel
  cases hs : line.statement with
  | none =>
    rw [hs] at h
    cases h
    simp [hcounter, Line.bytes, hs]
  | some s =>
    rw [hs] at h
    rw [counter_followStatement hl₁ h, hsection, hcounter, Line.bytes, hs]
    rfl

theorem exists_followLine_iff (hl : l.Sound) {line : Line} :
    (∃ l', l.followLine implicit line = .ok l') ↔
      (line.needsSection = true → l.current.or implicit ≠ none) ∧ line.SkipFits ∧
        ∀ name, l.current.or implicit = some name → l.counter name + line.bytes < 0x100000000 := by
  cases hs : line.statement with
  | none =>
    have hneeds : line.needsSection = line.label.isSome := by simp [Line.needsSection, hs]
    have hskip : line.SkipFits := by simp [Line.SkipFits, hs]
    have hroom (name : String) : l.counter name + line.bytes < 0x100000000 := by
      simpa [Line.bytes, hs] using hl.small name
    have hfollow : (∃ l', l.followLine implicit line = .ok l') ↔
        ∃ l', l.followLabel implicit line.label = .ok l' := by
      simp [followLine, hs, bind_eq_ok, pure, Except.pure]
    rw [hfollow, exists_followLabel_iff, hneeds]
    exact ⟨fun h => ⟨h, hskip, fun name _ => hroom name⟩, fun h => h.1⟩
  | some s =>
    have hneeds : line.needsSection = (line.label.isSome || s.hasContent) := by
      simp [Line.needsSection, hs]
    have hskip : line.SkipFits ↔ ∀ n, s = .skip n → n.toNat ≤ 0xFFFFFFFC := by
      simp [Line.SkipFits, hs]
    have hbytes : line.bytes = s.bytes := by simp [Line.bytes, hs]
    rw [hneeds, hskip, hbytes]
    constructor
    · rintro ⟨l', h⟩
      obtain ⟨l₁, hlabel, h⟩ := bind_eq_ok.mp h
      rw [hs] at h
      obtain ⟨hl₁, hsection, hcounter⟩ := section_followLabel hl hlabel
      obtain ⟨hroom, hskip⟩ := (exists_followStatement_iff hl₁).mp ⟨l', h⟩
      simp only [hsection, hcounter] at hroom
      refine ⟨?_, hskip, ?_⟩
      · intro hneeds
        rcases Bool.or_eq_true_iff.mp hneeds with hneeds | hneeds
        · exact exists_followLabel_iff.mp ⟨l₁, hlabel⟩ hneeds
        · obtain ⟨name, hname, -⟩ := hroom hneeds
          exact hname ▸ Option.some_ne_none name
      · intro name hname
        by_cases hcontent : s.hasContent = true
        · obtain ⟨name', hname', hroom⟩ := hroom hcontent
          obtain rfl := Option.some.inj (hname.symm.trans hname')
          exact hroom
        · rw [Statement.bytes_of_not_hasContent (Bool.eq_false_iff.mpr hcontent)]
          exact hl.small name
    · rintro ⟨hsection, hskip, hroom⟩
      obtain ⟨l₁, hlabel⟩ := exists_followLabel_iff.mpr fun hlabel =>
        hsection (Bool.or_eq_true_iff.mpr (.inl hlabel))
      obtain ⟨hl₁, hsection₁, hcounter⟩ := section_followLabel hl hlabel
      have hcontent : s.hasContent = true → ∃ name, l₁.current.or implicit = some name ∧
          l₁.counter name + s.bytes < 0x100000000 := by
        intro hcontent
        obtain ⟨name, hname⟩ := Option.ne_none_iff_exists'.mp
          (hsection (Bool.or_eq_true_iff.mpr (.inr hcontent)))
        exact ⟨name, hsection₁ ▸ hname, hcounter name ▸ hroom name hname⟩
      obtain ⟨l', h⟩ := (exists_followStatement_iff hl₁).mpr ⟨hcontent, hskip⟩
      exact ⟨l', bind_eq_ok.mpr ⟨l₁, hlabel, by rw [hs]; exact h⟩⟩

/-- A walk succeeds exactly if no line lacks a section, every skip fits and no section becomes too
large. -/
theorem exists_follow_iff (hl : l.Sound) : (∃ l', l.follow implicit program = .ok l') ↔
    (l.current.or implicit = none → program.needsImplicit = false) ∧
      (∀ n ∈ program, n.line.SkipFits) ∧
        ∀ name, l.counter name + program.sizeIn name (l.current.or implicit) < 0x100000000 := by
  induction program generalizing l with
  | nil => simpa [follow, Program.needsImplicit, Program.sizeIn] using hl.small
  | cons n rest ih =>
    -- What the first line does to the section and the counters that the rest begins with.
    have hstep {l₁ : Locations} (h : l.followLine implicit n.line = .ok l₁) :
        (∃ l', l₁.follow implicit rest = .ok l') ↔
          (n.line.opened?.or (l.current.or implicit) = none →
            Program.needsImplicit rest = false) ∧
            (∀ m ∈ rest, m.line.SkipFits) ∧
              ∀ name, l.counter name + Program.sizeIn name (l.current.or implicit) (n :: rest) <
                0x100000000 := by
      rw [ih (hl.followLine h), section_followLine hl h]
      simp only [counter_followLine hl h, Program.sizeIn, Nat.add_assoc]
    have hneeds : (l.current.or implicit = none → Program.needsImplicit (n :: rest) = false) ↔
        (n.line.needsSection = true → l.current.or implicit ≠ none) ∧
          (n.line.opened?.or (l.current.or implicit) = none →
            Program.needsImplicit rest = false) := by
      rw [Program.needsImplicit]
      cases l.current.or implicit <;> cases n.line.needsSection <;> cases n.line.opened? <;> simp
    rw [List.forall_mem_cons, hneeds]
    constructor
    · rintro ⟨l', h⟩
      obtain ⟨l₁, hline, h⟩ := bind_eq_ok.mp h
      obtain ⟨hsection, hskip, -⟩ := (exists_followLine_iff hl).mp ⟨l₁, hline⟩
      obtain ⟨hsections, hskips, hroom⟩ := (hstep hline).mp ⟨l', h⟩
      exact ⟨⟨hsection, hsections⟩, ⟨hskip, hskips⟩, hroom⟩
    · rintro ⟨⟨hsection, hsections⟩, ⟨hskip, hskips⟩, hroom⟩
      have hfirst : ∀ name, l.current.or implicit = some name →
          l.counter name + n.line.bytes < 0x100000000 := by
        intro name hname
        have htotal := hroom name
        rw [Program.sizeIn, if_pos hname] at htotal
        omega
      obtain ⟨l₁, hline⟩ := (exists_followLine_iff hl).mpr ⟨hsection, hskip, hfirst⟩
      obtain ⟨l', h⟩ := (hstep hline).mpr ⟨hsections, hskips, hroom⟩
      exact ⟨l', bind_eq_ok.mpr ⟨l₁, hline, h⟩⟩

/-- A walk that begins outside all sections, with nothing in them. -/
theorem exists_follow_iff_of_fresh (hl : l.Sound) (hcurrent : l.current = none)
    (hcounter : ∀ name, l.counter name = 0) : (∃ l', l.follow implicit program = .ok l') ↔
      (implicit = none → program.needsImplicit = false) ∧ (∀ n ∈ program, n.line.SkipFits) ∧
        ∀ name, program.sizeIn name implicit < 0x100000000 := by
  simp only [exists_follow_iff hl, hcurrent, hcounter, Option.none_or, Nat.zero_add]

end Locations

end Toolchain32
