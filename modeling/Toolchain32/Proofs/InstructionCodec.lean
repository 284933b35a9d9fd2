import Toolchain32.Instruction.Codec

/-!
# Decoding an encoded instruction

A word keeps twelve bits of a displacement. `decode_encode` says that decoding gives the encoded
instruction back with its displacement replaced by what those bits stand for, and `reread_of_fits`
that this is the instruction itself when the displacement is a signed number of twelve bits.
-/

namespace Toolchain32

def rereadDisplacement (d : Int16) : Int16 := ofDisplacementField (displacementField d)

theorem val_displacementField (d : Int16) :
    (displacementField d).val = (d.toInt % 4096).toNat := by
  rw [displacementField, val_lowTwelve]
  omega

def FitsDisplacement (d : Int16) : Prop := -2048 ≤ d.toInt ∧ d.toInt ≤ 2047

instance (d : Int16) : Decidable (FitsDisplacement d) := inferInstanceAs (Decidable (_ ∧ _))

theorem rereadDisplacement_of_fits {d : Int16} (h : FitsDisplacement d) :
    rereadDisplacement d = d := by
  obtain ⟨hlow, hhigh⟩ := h
  have hn : ((UInt32.ofNat (displacementField d).val).toNat % 0x1000 : Nat) =
      (d.toInt % 4096).toNat := by
    rw [UInt32.toNat_ofNat', val_displacementField]; omega
  unfold rereadDisplacement ofDisplacementField Word.displacement
  simp only [hn]
  by_cases hd : 0 ≤ d.toInt
  · rw [if_pos (by omega), show (((d.toInt % 4096).toNat : Nat) : Int) = d.toInt by omega,
      Int16.ofInt_toInt]
  · rw [if_neg (by omega),
      show (((d.toInt % 4096).toNat : Nat) : Int) - 0x1000 = d.toInt by omega, Int16.ofInt_toInt]

/-- An inline value is a displacement that is read back as it is. -/
theorem toInt_ofInt_of_inline {n : Int} (h : 0 ≤ n ∧ n ≤ 0x7FF) : (Int16.ofInt n).toInt = n :=
  Int16.toInt_ofInt_of_le (by omega) (by omega)

theorem fitsDisplacement_of_inline {n : Int} (h : 0 ≤ n ∧ n ≤ 0x7FF) :
    FitsDisplacement (Int16.ofInt n) := by
  rw [FitsDisplacement, toInt_ofInt_of_inline h]
  omega

namespace Instruction

def displacement? : Instruction → Option Int16
  | call _ _ d | callPool _ _ d | jump _ _ _ _ d | jumpPool _ _ _ _ d | store _ _ _ d | push _ _ d
  | storePool _ _ _ d | move _ _ d | load _ _ d | loadPool _ _ d | pop _ _ d | popFused _ _ d
  | moveControl _ _ d | loadControl _ _ _ d | popControl _ _ d => some d
  | halt | interrupt | exchange .. | arith .. | logic .. | shift .. | readControl ..
  | writeControl .. => none

def reread : Instruction → Instruction
  | call a b d => call a b (rereadDisplacement d)
  | callPool a b d => callPool a b (rereadDisplacement d)
  | jump k a b c d => jump k a b c (rereadDisplacement d)
  | jumpPool k a b c d => jumpPool k a b c (rereadDisplacement d)
  | store a b c d => store a b c (rereadDisplacement d)
  | push a c d => push a c (rereadDisplacement d)
  | storePool a b c d => storePool a b c (rereadDisplacement d)
  | move a b d => move a b (rereadDisplacement d)
  | load a b d => load a b (rereadDisplacement d)
  | loadPool a b d => loadPool a b (rereadDisplacement d)
  | pop a b d => pop a b (rereadDisplacement d)
  | popFused a b d => popFused a b (rereadDisplacement d)
  | moveControl s b d => moveControl s b (rereadDisplacement d)
  | loadControl s b c d => loadControl s b c (rereadDisplacement d)
  | popControl s b d => popControl s b (rereadDisplacement d)
  | i => i

theorem reread_of_fits {i : Instruction} (h : ∀ d ∈ i.displacement?, FitsDisplacement d) :
    i.reread = i := by
  cases i <;> simp_all [reread, displacement?, rereadDisplacement_of_fits]

/-- The register and mode fields hold numbers below sixteen, so that each is read back as it is. -/
theorem controlOf_nibble_index (s : ControlRegister) : controlOf (nibble s.index) = .ok s := by
  cases s <;> rfl

theorem decode_encode (i : Instruction) : decode i.encode = .ok i.reread := by
  rw [encode, decode_toWord]
  cases i with
  | jump k a b c d | jumpPool k a b c d =>
    cases k <;> simp [fields, ofFields, Fields.ofNats, member, Condition.code, Condition.all,
      reread, rereadDisplacement]
  | arith op a b c =>
    cases op <;> simp [fields, ofFields, Fields.ofNats, member, Arith.code, Arith.all, reread]
  | logic op a b c =>
    cases op <;> simp [fields, ofFields, Fields.ofNats, member, Logic.code, Logic.all, reread]
  | shift op a b c =>
    cases op <;> simp [fields, ofFields, Fields.ofNats, member, Shift.code, Shift.all, reread]
  | _ =>
    simp [fields, ofFields, Fields.ofNats, member, ofLoadFields, controlOf_nibble_index,
      Except.map, reread, rereadDisplacement]

theorem decode_encode_of_fits {i : Instruction} (h : ∀ d ∈ i.displacement?, FitsDisplacement d) :
    decode i.encode = .ok i := by
  rw [decode_encode, reread_of_fits h]

end Instruction

end Toolchain32
