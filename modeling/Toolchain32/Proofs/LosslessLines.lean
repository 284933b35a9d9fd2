import Toolchain32.Assembly.Emission
import Toolchain32.Proofs.InstructionBoundaries

/-!
# What is written is kept

The numbers of a line are read into words and displacements of fixed width, and go from there into
the fields of instructions. None of them is cut on the way. A line is read into the numbers that its
arguments spell, within the ranges of their places; and an operation is read back from its decoded
pieces, with every literal modulo 2^32: `lossless_of_read`.
-/

namespace Toolchain32

open Fallible

namespace Value

def unsigned : Value → Value
  | literal n => literal (n % 0x100000000)
  | symbol name => symbol name

end Value

def Piece.value : Piece → Value
  | word w => .literal (Word.unpack w).toNat
  | reference name => .symbol name

namespace Value

@[simp] theorem value_piece (v : Value) : v.piece.value = v.unsigned := by
  cases v with
  | symbol name => rfl
  | literal n =>
    have hn : ((UInt32.ofInt n).toNat : Int) = n % 0x100000000 := by
      rw [UInt32.ofInt, UInt32.toNat_ofNat']
      omega
    rw [piece, Piece.value, Word.unpack_pack, hn, unsigned]

theorem unsigned_of_inline {v : Value} {d : Int16} (h : v.inline? = some d) :
    v.unsigned = .literal d.toInt := by
  obtain ⟨n, rfl, hn, rfl⟩ := inline?_eq_some h
  rw [unsigned, toInt_ofInt_of_inline hn, Int.emod_eq_of_lt hn.1 (by omega)]

end Value

def Segment.value? (s : Segment) : Option Value :=
  match s.operand with
  | some operand => some operand.value
  | none => s.instruction.displacement?.map fun d => .literal d.toInt

namespace Segment

@[simp] theorem instruction_encoded (i : Instruction) (value : Option Value) :
    (encoded i value).instruction = i := rfl

theorem value?_short (f : ValueForm) {v : Value} {d : Int16} (h : v.inline? = some d) :
    (encoded (f.short d) none).value? = some v.unsigned := by
  rw [Value.unsigned_of_inline h]
  change (f.short d).displacement?.map _ = _
  rw [f.displacement_short]
  rfl

theorem value?_pool (f : ValueForm) (v : Value) :
    (encoded f.pool (some v)).value? = some v.unsigned :=
  congrArg some v.value_piece

end Segment

namespace Operation

def unsigned : Operation → Operation
  | call v => call v.unsigned
  | jump v => jump v.unsigned
  | branch k b c v => branch k b c v.unsigned
  | load (.immediate v) t => load (.immediate v.unsigned) t
  | load (.place (.memory v)) t => load (.place (.memory v.unsigned)) t
  | store s (.memory v) => store s (.memory v.unsigned)
  | op => op

/-- An operation from its first segment and the instructions after it. Of the operation that is
given only its kind is looked at: everything in the result comes from the segments. -/
def readBackFrom (s : Segment) (rest : List Instruction) : Operation → Option Operation
  | halt => if s.instruction = .halt then some halt else none
  | interrupt => if s.instruction = .interrupt then some interrupt else none
  | interruptReturn =>
    if s.instruction = .popFused .programCounter .stackPointer 4 ∧
        rest = [.popControl .status .stackPointer 4] then some interruptReturn
    else none
  | subroutineReturn =>
    if s.instruction = .pop .programCounter .stackPointer 4 then some subroutineReturn else none
  | call _ =>
    match s.instruction with
    | .call .. | .callPool .. => s.value?.map call
    | _ => none
  | jump _ =>
    match s.instruction with
    | .jump .always .. | .jumpPool .always .. => s.value?.map jump
    | _ => none
  | branch .. =>
    match s.instruction with
    | .jump k _ b c _ | .jumpPool k _ b c _ => s.value?.map (branch k b c)
    | _ => none
  | push _ =>
    match s.instruction with
    | .push _ r _ => some (push r)
    | _ => none
  | pop _ =>
    match s.instruction with
    | .pop r _ _ => some (pop r)
    | _ => none
  | exchange .. =>
    match s.instruction with
    | .exchange b c => some (exchange c b)
    | _ => none
  | arith .. =>
    match s.instruction with
    | .arith op a b c => if a = b then some (arith op c a) else none
    | _ => none
  | logic .. =>
    match s.instruction with
    | .logic op a b c => if a = b then some (logic op c a) else none
    | _ => none
  | complement _ =>
    match s.instruction with
    | .logic .not a b _ => if a = b then some (complement a) else none
    | _ => none
  | shift .. =>
    match s.instruction with
    | .shift op a b c => if a = b then some (shift op c a) else none
    | _ => none
  | readControl .. =>
    match s.instruction with
    | .readControl a control => some (readControl control a)
    | _ => none
  | writeControl .. =>
    match s.instruction with
    | .writeControl control b => some (writeControl b control)
    | _ => none
  | load (.immediate _) _ =>
    match s.instruction with
    | .move a _ _ | .loadPool a _ _ => s.value?.map fun v => load (.immediate v) a
    | _ => none
  | load (.place (.memory _)) _ =>
    match s.instruction with
    | .load a _ _ => s.value?.map fun v => load (.place (.memory v)) a
    | .loadPool a _ _ =>
      if rest = [.load a a 0] then s.value?.map fun v => load (.place (.memory v)) a else none
    | _ => none
  | load (.place (.register _)) _ =>
    match s.instruction with
    | .move a b d => if d = 0 then some (load (.place (.register b)) a) else none
    | _ => none
  | load (.place (.indirect ..)) _ =>
    match s.instruction with
    | .load a b d => some (load (.place (.indirect b d)) a)
    | _ => none
  | store _ (.memory _) =>
    match s.instruction with
    | .store _ _ c _ | .storePool _ _ c _ => s.value?.map fun v => store c (.memory v)
    | _ => none
  | store _ (.register _) =>
    match s.instruction with
    | .move a b d => if d = 0 then some (store b (.register a)) else none
    | _ => none
  | store _ (.indirect ..) =>
    match s.instruction with
    | .store a _ c d => some (store c (.indirect a d))
    | _ => none

def readBack (op : Operation) : List Segment → Option Operation
  | [] => none
  | s :: rest => op.readBackFrom s (rest.map (·.instruction))

theorem readBack_of_short (f : ValueForm) {v : Value} {d : Int16} (h : v.inline? = some d) :
    (f.operation v).readBackFrom (.encoded (f.short d) none) [] =
      some (f.operation v.unsigned) := by
  have hvalue := Segment.value?_short f h
  cases f <;>
    simp only [ValueForm.operation, ValueForm.short, readBackFrom, Segment.instruction_encoded]
      at hvalue ⊢ <;>
    rw [hvalue, Option.map_some]

theorem readBack_of_pool (f : ValueForm) (v : Value) :
    (f.operation v).readBackFrom (.encoded f.pool (some v)) f.rest =
      some (f.operation v.unsigned) := by
  have hvalue := Segment.value?_pool f v
  cases f <;>
    simp only [ValueForm.operation, ValueForm.pool, ValueForm.rest, readBackFrom, if_true,
      Segment.instruction_encoded] at hvalue ⊢ <;>
    rw [hvalue, Option.map_some]

theorem readBack_valueForm (f : ValueForm) (v : Value) :
    (f.operation v).readBack (f.segments v) = some (f.operation v.unsigned) := by
  -- The value is in the displacement of the short form, or else behind the first instruction.
  unfold ValueForm.segments
  cases h : v.inline? with
  | some d => exact readBack_of_short f h
  | none =>
    have hrest : (f.rest.map (Segment.encoded · none)).map (·.instruction) = f.rest := by
      rw [List.map_map]
      exact List.map_id _
    change (f.operation v).readBackFrom _ _ = _
    rw [hrest]
    exact readBack_of_pool f v

/-- An operation is read back from its segments, with its literal as an unsigned number. -/
theorem readBack_segments (op : Operation) : op.readBack op.segments = some op.unsigned := by
  cases op with
  | call v => exact readBack_valueForm .call v
  | jump v => exact readBack_valueForm .jump v
  | branch k b c v => exact readBack_valueForm (.branch k b c) v
  | load source t =>
    cases source with
    | immediate v => exact readBack_valueForm (.loadValue t) v
    | place p =>
      cases p with
      | memory v => exact readBack_valueForm (.loadWord t) v
      | register r => simp [segments, readBack, readBackFrom, unsigned]
      | indirect base d => rfl
  | store s target =>
    cases target with
    | memory v => exact readBack_valueForm (.storeWord s) v
    | register r => simp [segments, readBack, readBackFrom, unsigned]
    | indirect base d => rfl
  | _ => simp [segments, readBack, readBackFrom, unsigned]

end Operation

def Place.SpellsDisplacement (s : List Char) (d : Int) : Prop :=
  ∃ inner, bracketed? s = some inner ∧
    match Text.cutAt? (· == '+') inner with
    | none => d = 0
    | some (_, text) => readLiteral (Text.trim text) = .ok (some d)

/-- A text that is no immediate operand and is read as the place, whose displacement, if it has one,
is the number in the text. -/
structure Place.SpelledBy (p : Place) (s : List Char) : Prop where
  notImmediate : Text.after? "$" s = none
  read : Place.read s = .ok p
  displacement : ∀ base d, p = .indirect base d →
    FitsDisplacement d ∧ Place.SpellsDisplacement s d.toInt

def Operand.SpelledBy (s : List Char) : Operand → Prop
  | immediate v => ∃ text, Text.after? "$" s = some text ∧ Value.read (Text.trim text) = .ok v
  | place p => p.SpelledBy s

def Operation.SpelledBy (arguments : List (List Char)) : Operation → Prop
  | call v | jump v => ∃ s, arguments = [s] ∧ Value.read s = .ok v
  | branch _ _ _ v => ∃ s t u, arguments = [s, t, u] ∧ Value.read u = .ok v
  | load source _ => ∃ s t, arguments = [s, t] ∧ source.SpelledBy s
  | store _ target => ∃ s t, arguments = [s, t] ∧ target.SpelledBy t
  | halt | interrupt | interruptReturn | subroutineReturn | push _ | pop _ | exchange .. | arith ..
  | logic .. | complement _ | shift .. | readControl .. | writeControl .. => True

theorem Value.readLiteral_of_read {s : List Char} {n : Int} (h : Value.read s = .ok (.literal n)) :
    readLiteral s = .ok (some n) := by
  unfold Value.read at h
  split at h
  · cases h
  · rename_i hliteral
    cases h
    exact hliteral
  · split at h <;> cases h

namespace Place

theorem readLiteral_of_readDisplacement {s : List Char} {d : Int16}
    (h : readDisplacement s = .ok d) : readLiteral s = .ok (some d.toInt) := by
  obtain ⟨n, hv, -, hd⟩ := exists_of_readDisplacement h
  rw [hd]
  exact Value.readLiteral_of_read hv

theorem spellsDisplacement_of_readIndirect {inner s : List Char} {base : Register} {d : Int16}
    (hs : bracketed? s = some inner) (h : readIndirect inner = .ok (.indirect base d)) :
    SpellsDisplacement s d.toInt := by
  refine ⟨inner, hs, ?_⟩
  unfold readIndirect at h
  cases hcut : Text.cutAt? (· == '+') inner with
  | none =>
    simp only [hcut, map_eq_ok] at h
    obtain ⟨r, -, ⟨⟩⟩ := h
    exact (rfl : Int16.toInt 0 = 0)
  | some parts =>
    simp only [hcut, bind_eq_ok] at h
    obtain ⟨r, -, d', hd, h⟩ := h
    cases h
    exact readLiteral_of_readDisplacement hd

theorem spellsDisplacement_of_read {s : List Char} {base : Register} {d : Int16}
    (h : read s = .ok (.indirect base d)) : SpellsDisplacement s d.toInt := by
  unfold read at h
  split at h
  · rw [map_eq_ok] at h
    obtain ⟨r, -, ⟨⟩⟩ := h
  · split at h
    · rename_i hinner
      exact spellsDisplacement_of_readIndirect hinner h
    · rw [map_eq_ok] at h
      obtain ⟨v, -, ⟨⟩⟩ := h

theorem spelledBy_of_read {s : List Char} {p : Place} (hs : Text.after? "$" s = none)
    (h : read s = .ok p) : p.SpelledBy s where
  notImmediate := hs
  read := h
  displacement := by
    rintro base d rfl
    exact ⟨legal_of_read h, spellsDisplacement_of_read h⟩

end Place

theorem Operand.spelledBy_of_read {s : List Char} {o : Operand} (h : Operand.read s = .ok o) :
    o.SpelledBy s := by
  unfold Operand.read at h
  split at h <;> rename_i hs <;> rw [map_eq_ok] at h
  · obtain ⟨v, hv, rfl⟩ := h
    exact ⟨_, hs, hv⟩
  · obtain ⟨p, hp, rfl⟩ := h
    exact Place.spelledBy_of_read hs hp

/-- Arguments of which as many are there as are read are the ones that are read. -/
theorem arguments_eq {arguments : List (List Char)} (taken : List (List Char))
    (hlength : arguments.length ≤ taken.length)
    (h : ∀ e ∈ taken.zipIdx, argument arguments e.2 = .ok e.1) : arguments = taken := by
  apply List.ext_getElem?
  intro i
  cases hi : taken[i]? with
  | none =>
    have hle := List.getElem?_eq_none_iff.mp hi
    exact List.getElem?_eq_none (Nat.le_trans hlength hle)
  | some s =>
    have hs : argument arguments i = .ok s := h (s, i) (List.mem_zipIdx_iff_getElem?.mpr hi)
    unfold argument at hs
    cases hget : arguments[i]? with
    | none => simp [hget] at hs
    | some t => simpa [hget] using hs

namespace Form

def Spells : Form → Prop
  | bare operation => ∀ arguments, operation.SpelledBy arguments
  | value make => ∀ s v, Value.read s = .ok v → (make v).SpelledBy [s]
  | register make => ∀ arguments r, (make r).SpelledBy arguments
  | registers make => ∀ arguments r s, (make r s).SpelledBy arguments
  | branch _ | readControl | writeControl | load | store => True

theorem spells_of_mem : ∀ e ∈ forms, e.2.Spells := by
  simp [forms, Spells, Operation.SpelledBy]

theorem spelledBy_of_read {form : Form} {arguments : List (List Char)} {op : Operation}
    (hform : form.Spells) (harity : arguments.length ≤ form.arity)
    (h : form.read arguments = .ok op) : op.SpelledBy arguments := by
  cases form with
  | bare operation =>
    cases h
    exact hform arguments
  | value make =>
    simp only [read, bind_eq_ok] at h
    obtain ⟨s, hs, v, hv, h⟩ := h
    cases h
    obtain rfl := arguments_eq [s] harity (by simp [hs])
    exact hform s v hv
  | register make =>
    simp only [read, bind_eq_ok] at h
    obtain ⟨s, -, r, -, h⟩ := h
    cases h
    exact hform arguments r
  | registers make =>
    simp only [read, bind_eq_ok] at h
    obtain ⟨s, -, r, -, t, -, r', -, h⟩ := h
    cases h
    exact hform arguments r r'
  | branch condition =>
    simp only [read, bind_eq_ok] at h
    obtain ⟨s, hs, b, -, t, ht, c, -, u, hu, v, hv, h⟩ := h
    cases h
    exact ⟨s, t, u, arguments_eq [s, t, u] harity (by simp [hs, ht, hu]), hv⟩
  | readControl | writeControl =>
    simp only [read, bind_eq_ok] at h
    obtain ⟨s, -, first, -, t, -, second, -, h⟩ := h
    cases h
    trivial
  | load =>
    simp only [read, bind_eq_ok] at h
    obtain ⟨s, hs, source, hsource, t, ht, target, -, h⟩ := h
    cases h
    have harguments := arguments_eq [s, t] harity (by simp [hs, ht])
    exact ⟨s, t, harguments, Operand.spelledBy_of_read hsource⟩
  | store =>
    simp only [read, bind_eq_ok] at h
    obtain ⟨s, hs, source, -, t, ht, target, htarget, h⟩ := h
    have harguments := arguments_eq [s, t] harity (by simp [hs, ht])
    cases target with
    | immediate v => cases h
    | place p =>
      cases h
      exact ⟨s, t, harguments, Operand.spelledBy_of_read htarget⟩

end Form

theorem Operation.spelledBy_of_read {mnemonic : String} {arguments : List (List Char)}
    {op : Operation} (h : Operation.read mnemonic arguments = .ok op) :
    op.SpelledBy arguments := by
  obtain ⟨form, hmem, harity, hread⟩ := exists_form_of_read h
  exact Form.spelledBy_of_read (Form.spells_of_mem _ hmem) harity hread

def LiteralRange (n : Int) : Prop := -0x80000000 ≤ n ∧ n < 0x100000000

/-- An operation has the numbers that its arguments spell, and is what its decoded pieces say but
for the sign of its literal. -/
structure Operation.Lossless (arguments : List (List Char)) (op : Operation) : Prop where
  literals : ∀ n, op.value? = some (.literal n) → LiteralRange n
  spelled : op.SpelledBy arguments
  recovered : ∃ segments, op.Divides segments ∧ op.readBack segments = some op.unsigned

def Statement.Lossless (arguments : List (List Char)) : Statement → Prop
  | words values =>
    arguments.mapM Value.read = .ok values ∧ (∀ n, .literal n ∈ values → LiteralRange n) ∧
      ∃ pieces, (words values).pieces? = .ok (some pieces) ∧
        pieces.map Piece.value = values.map Value.unsigned
  -- The count is held in a word and the number that is spelled is not, so that they can differ.
  | skip bytes =>
    ∃ s n, arguments = [s] ∧ readLiteral s = .ok (some n) ∧ (0 ≤ n ∧ n < 0x100000000) ∧
      (bytes.toNat : Int) = n
  | operation op => op.Lossless arguments
  | global _ | external _ | openSection _ | finish => True

theorem Operation.lossless_of_legal {arguments : List (List Char)} {op : Operation}
    (hlegal : op.Legal) (hspelled : op.SpelledBy arguments) : op.Lossless arguments where
  literals := fun _ h => legal_of_value hlegal h
  spelled := hspelled
  recovered := ⟨op.segments, divides_segments hlegal, op.readBack_segments⟩

namespace Statement

theorem lossless_of_readSkip {arguments : List (List Char)} {bytes : Word}
    (h : readSkip arguments = .ok bytes) : (skip bytes).Lossless arguments := by
  unfold readSkip at h
  split at h
  · cases h
  · rename_i s
    split at h
    · cases h
    · cases h
    · rename_i n hn
      by_cases hneg : n < 0
      · simp [hneg] at h
      · simp only [hneg, if_false] at h
        cases h
        have hrange := range_of_readLiteral hn
        refine ⟨s, n, rfl, hn, by omega, ?_⟩
        rw [UInt32.ofInt, UInt32.toNat_ofNat']
        omega
  · cases h

theorem lossless_of_readWords {arguments : List (List Char)} {values : List Value}
    (h : readWords arguments = .ok values) : (words values).Lossless arguments := by
  have hlegal := legal_of_readWords h
  unfold readWords at h
  split at h
  · cases h
  · refine ⟨h, fun n hn => hlegal _ hn, _, rfl, ?_⟩
    rw [List.map_map]
    exact List.map_congr_left fun v _ => v.value_piece

theorem lossless_of_ofParts {head : String} {arguments : List (List Char)} {s : Statement}
    (h : ofParts head arguments = .ok s) : s.Lossless arguments := by
  have hlegal := legal_of_ofParts h
  unfold ofParts at h
  split at h
  case h_6 =>
    split at h <;> cases h
    trivial
  all_goals
    rw [map_eq_ok] at h
    obtain ⟨_, h, rfl⟩ := h
  · trivial
  · trivial
  · trivial
  · exact lossless_of_readWords h
  · exact lossless_of_readSkip h
  · exact Operation.lossless_of_legal hlegal (Operation.spelledBy_of_read h)

end Statement

namespace Line

def parts? (raw : List Char) : Option (String × List (List Char)) :=
  let code := (splitLabel (withoutComment raw)).2
  if code.isEmpty then none
  else match Text.cutAt? Text.isBlank code with
    | some (head, tail) => some (String.ofList head, Statement.splitArguments (Text.trim tail))
    | none => some (String.ofList code, [])

theorem exists_parts {raw : List Char} {label : Option String} {s : Statement}
    (h : readChars raw = .ok ⟨label, some s⟩) :
    ∃ head arguments, parts? raw = some (head, arguments) ∧
      Statement.ofParts head arguments = .ok s := by
  unfold readChars at h
  unfold parts?
  cases hsplit : splitLabel (withoutComment raw) with
  | mk label' code =>
    rw [hsplit] at h
    dsimp only at h ⊢
    by_cases hcode : code.isEmpty
    · rw [if_pos hcode] at h
      cases h
    · rw [if_neg hcode, map_eq_ok] at h
      obtain ⟨_, h, ⟨⟩⟩ := h
      rw [if_neg hcode]
      unfold Statement.read at h
      cases hcut : Text.cutAt? Text.isBlank code with
      | none =>
        rw [hcut] at h
        exact ⟨_, _, rfl, h⟩
      | some parts =>
        rw [hcut] at h
        exact ⟨_, _, rfl, h⟩

/-- Of every line that can be read, the numbers in its statement are those that its arguments spell,
within their ranges, and the emitted pieces hold them: the data words as they are, and those of an
operation where the decoder finds them, with every register in its place. -/
theorem lossless_of_read {raw : String} {label : Option String} {s : Statement}
    (h : read raw = .ok ⟨label, some s⟩) :
    ∃ head arguments, parts? raw.toList = some (head, arguments) ∧ s.Lossless arguments := by
  obtain ⟨head, arguments, hparts, hread⟩ := exists_parts h
  exact ⟨head, arguments, hparts, Statement.lossless_of_ofParts hread⟩

/-- A store at the lowest displacement, and a word with a negative literal. -/
theorem lossless_of_read_lowest :
    let op : Operation := .store ⟨1, by decide⟩ (.indirect ⟨2, by decide⟩ (-2048))
    read "x: st %r1, [%r2 + -2048]" = .ok ⟨some "x", some (.operation op)⟩ ∧
      op.Lossless ["%r1".toList, "[%r2 + -2048]".toList] ∧
      read ".word -1" = .ok ⟨none, some (.words [.literal (-1)])⟩ ∧
      (Statement.words [.literal (-1)]).Lossless ["-1".toList] := by
  intro op
  have hstore : read "x: st %r1, [%r2 + -2048]" = .ok ⟨some "x", some (.operation op)⟩ := rfl
  have hword : read ".word -1" = .ok ⟨none, some (.words [.literal (-1)])⟩ := rfl
  obtain ⟨_, _, ⟨⟩, hop⟩ := lossless_of_read hstore
  obtain ⟨_, _, ⟨⟩, hwords⟩ := lossless_of_read hword
  exact ⟨hstore, hop, hword, hwords⟩

end Line

end Toolchain32
