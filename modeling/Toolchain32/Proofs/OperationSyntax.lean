import Mathlib.Data.List.Forall2
import Toolchain32.Proofs.ArgumentSpellings
import Toolchain32.Proofs.LosslessLines

/-!
# The syntax of operations

An operation is written as a mnemonic (`Operation.mnemonic?`) and arguments
(`Operation.arguments`). It is read from that mnemonic and from texts that its arguments are read
from, and from nothing else: `Operation.read_eq_ok_iff`.
-/

namespace Toolchain32

open Fallible Text

variable {s : List Char} {texts : List (List Char)} {op : Operation}

inductive Argument
  | name (name : String)
  | sectionName (name : String)
  | value (v : Value)
  /-- A count of bytes. -/
  | count (bytes : Word)
  | register (r : Register)
  | control (r : ControlRegister)
  | operand (o : Operand)

namespace Argument

def Spelling : Argument → List Char → Prop
  | name n, s => SymbolName n ∧ s = n.toList
  | sectionName n, s => TableName n ∧ s = n.toList
  | value v, s => v.Spelling s
  | count bytes, s => ∃ l : Literal, l.Spelling s ∧ l.fits = true ∧ l.value = bytes.toNat
  | register r, s => r.Spelling s
  | control r, s => r.Spelling s
  | operand o, s => o.Spelling s

def BareSpelling : Argument → List Char → Prop
  | control r, s => r.BareSpelling s
  | a, s => a.Spelling s

def Reads : Argument → List Char → Prop
  | name n, s => isSymbolName s = true ∧ String.ofList s = n
  | sectionName n, s => isSectionName s = true ∧ String.ofList s = n
  | value v, s => Value.read s = .ok v
  | count bytes, s => Statement.readSkip [s] = .ok bytes
  | register r, s => readRegister s = .ok r
  | control r, s => readControlRegister s = .ok r
  | operand o, s => Operand.read s = .ok o

variable {a : Argument}

theorem Spelling.isArgument (h : a.Spelling s) : IsArgument s := by
  cases a with
  | name name =>
    obtain ⟨hname, rfl⟩ := h
    exact hname.plain.isArgument
  | sectionName name =>
    obtain ⟨hname, rfl⟩ := h
    exact hname.plain.isArgument
  | value v => exact (Value.Spelling.plain h).isArgument
  | count bytes =>
    obtain ⟨l, spelling, -⟩ := h
    exact spelling.plain.isArgument
  | register r => exact Register.Spelling.isArgument h
  | control r => exact ControlRegister.Spelling.isArgument h
  | operand o => exact Operand.Spelling.isArgument h

theorem bareSpelling_iff (h : ∀ r, a ≠ control r) : a.BareSpelling s ↔ a.Spelling s := by
  cases a with
  | control r => exact absurd rfl (h r)
  | _ => rfl

theorem BareSpelling.isArgument (h : a.BareSpelling s) : IsArgument s := by
  by_cases hcontrol : ∃ r, a = control r
  · obtain ⟨r, rfl⟩ := hcontrol
    exact (ControlRegister.BareSpelling.plain h).isArgument
  · exact ((bareSpelling_iff fun r hr => hcontrol ⟨r, hr⟩).mp h).isArgument

theorem readSkip_eq_ok_iff {bytes : Word} : Statement.readSkip [s] = .ok bytes ↔
    ∃ l : Literal, l.Spelling s ∧ l.fits = true ∧ l.value = bytes.toNat := by
  constructor
  · intro h
    obtain ⟨t, n, ht, hliteral, -, hn⟩ := Statement.lossless_of_readSkip h
    cases ht
    obtain ⟨l, spelling, fits, hvalue⟩ := readLiteral_eq_some_iff.mp hliteral
    exact ⟨l, spelling, fits, hvalue.trans hn.symm⟩
  · intro h
    have hbytes : ¬ (bytes.toNat : Int) < 0 := by omega
    rw [Statement.readSkip, readLiteral_eq_some_iff.mpr h]
    simp only [hbytes, if_false, Except.ok.injEq]
    rw [← UInt32.toNat_inj, UInt32.ofInt, UInt32.toNat_ofNat']
    have hlt := bytes.toNat_lt
    omega

theorem spells_name_iff {p : List Char → Bool} {n : String} :
    p s = true ∧ String.ofList s = n ↔ p n.toList = true ∧ s = n.toList := by
  constructor
  · rintro ⟨hp, rfl⟩
    rw [String.toList_ofList]
    exact ⟨hp, rfl⟩
  · rintro ⟨hp, rfl⟩
    exact ⟨hp, String.ofList_toList⟩

/-- An argument is read from its spellings, and a control register also without its percent
sign. -/
theorem reads_iff (hs : trim s = s) : a.Reads s ↔ a.Spelling s ∨ a.BareSpelling s := by
  cases a with
  | name n => exact spells_name_iff.trans (or_self_iff).symm
  | sectionName n => exact spells_name_iff.trans (or_self_iff).symm
  | value v => exact Value.read_eq_ok_iff.trans (or_self_iff).symm
  | count bytes => exact readSkip_eq_ok_iff.trans (or_self_iff).symm
  | register r => exact readRegister_eq_ok_iff.trans (or_self_iff).symm
  | control r => exact readControlRegister_eq_ok_iff
  | operand o => exact (Operand.read_eq_ok_iff hs).trans (or_self_iff).symm

def Legal : Argument → Prop
  | name n => SymbolName n
  | sectionName n => TableName n
  | value v => v.Legal
  | operand o => o.Legal
  | count _ | register _ | control _ => True

theorem exists_spelling (h : a.Legal) : ∃ s, a.Spelling s := by
  cases a with
  | name n | sectionName n => exact ⟨n.toList, h, rfl⟩
  | value v => exact Value.exists_spelling h
  | count bytes =>
    have hlt := bytes.toNat_lt
    obtain ⟨l, s, spelling, fits, hvalue⟩ := Literal.exists_spelling (n := bytes.toNat)
      (by omega) (by omega)
    exact ⟨s, l, spelling, fits, hvalue⟩
  | register r => exact r.exists_spelling
  | control r => exact r.exists_spelling
  | operand o => exact Operand.exists_spelling h

end Argument

namespace Operation

/-- The mnemonic that an operation is written with. None is for a jump that is called a branch, or a
complement that is called a logic operation of two registers. -/
def mnemonic? : Operation → Option String
  | halt => some "halt"
  | interrupt => some "int"
  | interruptReturn => some "iret"
  | subroutineReturn => some "ret"
  | call _ => some "call"
  | jump _ => some "jmp"
  | branch .always .. => none
  | branch condition .. => some condition.mnemonic
  | push _ => some "push"
  | pop _ => some "pop"
  | exchange .. => some "xchg"
  | arith op .. => some op.mnemonic
  | logic .not .. => none
  | logic op .. => some op.mnemonic
  | complement _ => some "not"
  | shift op .. => some op.mnemonic
  | readControl .. => some "csrrd"
  | writeControl .. => some "csrwr"
  | load .. => some "ld"
  | store .. => some "st"

def arguments : Operation → List Argument
  | halt | interrupt | interruptReturn | subroutineReturn => []
  | call v | jump v => [.value v]
  | branch _ b c v => [.register b, .register c, .value v]
  | push r | pop r | complement r => [.register r]
  | exchange r s | arith _ r s | logic _ r s | shift _ r s => [.register r, .register s]
  | readControl control r => [.control control, .register r]
  | writeControl r control => [.register r, .control control]
  | load source r => [.operand source, .register r]
  | store r target => [.register r, .operand (.place target)]

def form : Operation → Form
  | halt => .bare halt
  | interrupt => .bare interrupt
  | interruptReturn => .bare interruptReturn
  | subroutineReturn => .bare subroutineReturn
  | call _ => .value call
  | jump _ => .value jump
  | branch condition .. => .branch condition
  | push _ => .register push
  | pop _ => .register pop
  | exchange .. => .registers exchange
  | arith op .. => .registers (arith op)
  | logic op .. => .registers (logic op)
  | complement _ => .register complement
  | shift op .. => .registers (shift op)
  | readControl .. => .readControl
  | writeControl .. => .writeControl
  | load .. => .load
  | store .. => .store

theorem mem_forms {mnemonic : String} (h : op.mnemonic? = some mnemonic) :
    (mnemonic, op.form) ∈ forms := by
  cases op with
  | branch condition => cases condition <;> cases h <;> simp [forms, form, Condition.mnemonic]
  | arith op => cases op <;> cases h <;> simp [forms, form, Arith.mnemonic]
  | logic op => cases op <;> cases h <;> simp [forms, form, Logic.mnemonic]
  | shift op => cases op <;> cases h <;> simp [forms, form, Shift.mnemonic]
  | _ => cases h; simp [forms, form]

end Operation

namespace Form

inductive Makes : Form → List Argument → Operation → Prop
  | bare (op : Operation) : Makes (.bare op) [] op
  | value (make : Value → Operation) (v : Value) : Makes (.value make) [.value v] (make v)
  | register (make : Register → Operation) (r : Register) :
      Makes (.register make) [.register r] (make r)
  | registers (make : Register → Register → Operation) (r s : Register) :
      Makes (.registers make) [.register r, .register s] (make r s)
  | branch (condition : Condition) (b c : Register) (v : Value) :
      Makes (.branch condition) [.register b, .register c, .value v] (.branch condition b c v)
  | readControl (control : ControlRegister) (r : Register) :
      Makes .readControl [.control control, .register r] (.readControl control r)
  | writeControl (r : Register) (control : ControlRegister) :
      Makes .writeControl [.register r, .control control] (.writeControl r control)
  | load (source : Operand) (r : Register) :
      Makes .load [.operand source, .register r] (.load source r)
  | store (r : Register) (target : Place) :
      Makes .store [.register r, .operand (.place target)] (.store r target)

theorem makes_form (op : Operation) : op.form.Makes op.arguments op := by
  cases op <;> constructor

/-- What the form of a mnemonic makes is written with that mnemonic and those arguments. -/
theorem syntax_of_makes : ∀ e ∈ forms, ∀ (arguments : List Argument) (op : Operation),
    e.2.Makes arguments op → op.mnemonic? = some e.1 ∧ op.arguments = arguments := by
  simp only [forms, List.forall_mem_cons, List.not_mem_nil, false_implies, implies_true, and_true]
  and_intros
  all_goals
    rintro arguments op ⟨⟩
    exact ⟨rfl, rfl⟩

theorem one_argument_eq_ok_iff {α : Type} {f : List Char → Except SyntaxError α}
    {make : α → Operation} :
    (do return make (← f (← argument texts 0))) = .ok op ∧ texts.length ≤ 1 ↔
      ∃ s a, texts = [s] ∧ f s = .ok a ∧ make a = op := by
  simp only [bind_eq_ok]
  constructor
  · rintro ⟨⟨s, hs, a, ha, h⟩, harity⟩
    cases h
    exact ⟨s, a, arguments_eq [s] harity (by simp [hs]), ha, rfl⟩
  · rintro ⟨s, a, rfl, ha, rfl⟩
    exact ⟨⟨s, rfl, a, ha, rfl⟩, Nat.le_refl 1⟩

theorem two_arguments_eq_ok_iff {α β : Type} {f : List Char → Except SyntaxError α}
    {g : List Char → Except SyntaxError β} {make : α → β → Operation} :
    (do
      let a ← f (← argument texts 0)
      let b ← g (← argument texts 1)
      return make a b) = .ok op ∧ texts.length ≤ 2 ↔
      ∃ s t a b, texts = [s, t] ∧ f s = .ok a ∧ g t = .ok b ∧ make a b = op := by
  simp only [bind_eq_ok]
  constructor
  · rintro ⟨⟨s, hs, a, ha, t, ht, b, hb, h⟩, harity⟩
    cases h
    exact ⟨s, t, a, b, arguments_eq [s, t] harity (by simp [hs, ht]), ha, hb, rfl⟩
  · rintro ⟨s, t, a, b, rfl, ha, hb, rfl⟩
    exact ⟨⟨s, rfl, a, ha, t, rfl, b, hb, rfl⟩, Nat.le_refl 2⟩

/-- A form is read from the texts of the arguments that it makes something of. -/
theorem read_eq_ok_iff {form : Form} : form.read texts = .ok op ∧ texts.length ≤ form.arity ↔
    ∃ arguments, form.Makes arguments op ∧ List.Forall₂ Argument.Reads arguments texts := by
  cases form with
  | bare operation =>
    constructor
    · rintro ⟨h, harity⟩
      cases h
      obtain rfl := List.length_eq_zero_iff.mp (Nat.le_zero.mp harity)
      exact ⟨_, .bare op, .nil⟩
    · rintro ⟨_, ⟨⟩, ⟨⟩⟩
      exact ⟨rfl, Nat.le_refl 0⟩
  | value make =>
    refine one_argument_eq_ok_iff.trans ⟨?_, ?_⟩
    · rintro ⟨s, v, rfl, hv, rfl⟩
      exact ⟨_, .value make v, .cons hv .nil⟩
    · rintro ⟨_, ⟨⟩, _ | ⟨hv, ⟨⟩⟩⟩
      exact ⟨_, _, rfl, hv, rfl⟩
  | register make =>
    refine one_argument_eq_ok_iff.trans ⟨?_, ?_⟩
    · rintro ⟨s, r, rfl, hr, rfl⟩
      exact ⟨_, .register make r, .cons hr .nil⟩
    · rintro ⟨_, ⟨⟩, _ | ⟨hr, ⟨⟩⟩⟩
      exact ⟨_, _, rfl, hr, rfl⟩
  | registers make =>
    refine two_arguments_eq_ok_iff.trans ⟨?_, ?_⟩
    · rintro ⟨s, t, r, r', rfl, hr, hr', rfl⟩
      exact ⟨_, .registers make r r', .cons hr (.cons hr' .nil)⟩
    · rintro ⟨_, ⟨⟩, _ | ⟨hr, _ | ⟨hr', ⟨⟩⟩⟩⟩
      exact ⟨_, _, _, _, rfl, hr, hr', rfl⟩
  | readControl =>
    refine two_arguments_eq_ok_iff.trans ⟨?_, ?_⟩
    · rintro ⟨s, t, control, r, rfl, hcontrol, hr, rfl⟩
      exact ⟨_, .readControl control r, .cons hcontrol (.cons hr .nil)⟩
    · rintro ⟨_, ⟨⟩, _ | ⟨hcontrol, _ | ⟨hr, ⟨⟩⟩⟩⟩
      exact ⟨_, _, _, _, rfl, hcontrol, hr, rfl⟩
  | writeControl =>
    refine two_arguments_eq_ok_iff.trans ⟨?_, ?_⟩
    · rintro ⟨s, t, r, control, rfl, hr, hcontrol, rfl⟩
      exact ⟨_, .writeControl r control, .cons hr (.cons hcontrol .nil)⟩
    · rintro ⟨_, ⟨⟩, _ | ⟨hr, _ | ⟨hcontrol, ⟨⟩⟩⟩⟩
      exact ⟨_, _, _, _, rfl, hr, hcontrol, rfl⟩
  | load =>
    refine two_arguments_eq_ok_iff.trans ⟨?_, ?_⟩
    · rintro ⟨s, t, source, r, rfl, hsource, hr, rfl⟩
      exact ⟨_, .load source r, .cons hsource (.cons hr .nil)⟩
    · rintro ⟨_, ⟨⟩, _ | ⟨hsource, _ | ⟨hr, ⟨⟩⟩⟩⟩
      exact ⟨_, _, _, _, rfl, hsource, hr, rfl⟩
  | branch condition =>
    simp only [read, bind_eq_ok]
    constructor
    · rintro ⟨⟨s, hs, b, hb, t, ht, c, hc, u, hu, v, hv, h⟩, harity⟩
      cases h
      obtain rfl := arguments_eq [s, t, u] harity (by simp [hs, ht, hu])
      exact ⟨_, .branch condition b c v, .cons hb (.cons hc (.cons hv .nil))⟩
    · rintro ⟨_, ⟨⟩, _ | ⟨hb, _ | ⟨hc, _ | ⟨hv, ⟨⟩⟩⟩⟩⟩
      exact ⟨⟨_, rfl, _, hb, _, rfl, _, hc, _, rfl, _, hv, rfl⟩, Nat.le_refl 3⟩
  | store =>
    simp only [read, bind_eq_ok]
    constructor
    · rintro ⟨⟨s, hs, r, hr, t, ht, target, htarget, h⟩, harity⟩
      obtain rfl := arguments_eq [s, t] harity (by simp [hs, ht])
      cases target with
      | immediate v => cases h
      | place p =>
        cases h
        exact ⟨_, .store r p, .cons hr (.cons htarget .nil)⟩
    · rintro ⟨_, ⟨⟩, _ | ⟨hr, _ | ⟨htarget, ⟨⟩⟩⟩⟩
      exact ⟨⟨_, rfl, _, hr, _, rfl, _, htarget, rfl⟩, Nat.le_refl 2⟩

end Form

theorem Operation.read_eq_ok_iff {mnemonic : String} : Operation.read mnemonic texts = .ok op ↔
    op.mnemonic? = some mnemonic ∧ List.Forall₂ Argument.Reads op.arguments texts := by
  constructor
  · intro h
    obtain ⟨form, hmem, harity, hread⟩ := exists_form_of_read h
    obtain ⟨arguments, hmakes, hreads⟩ := Form.read_eq_ok_iff.mp ⟨hread, harity⟩
    obtain ⟨hmnemonic, rfl⟩ := Form.syntax_of_makes _ hmem arguments op hmakes
    exact ⟨hmnemonic, hreads⟩
  · rintro ⟨hmnemonic, hreads⟩
    have hnodup : (forms.map (·.1)).Nodup := by decide
    have hform := (lookup_eq_some_iff_mem hnodup).mpr (op.mem_forms hmnemonic)
    obtain ⟨hread, harity⟩ := Form.read_eq_ok_iff.mpr ⟨_, Form.makes_form op, hreads⟩
    rw [Operation.read, hform]
    exact (if_neg (Nat.not_lt.mpr harity)).trans hread

end Toolchain32
