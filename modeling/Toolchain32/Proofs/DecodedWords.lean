import Toolchain32.Proofs.Fallible
import Toolchain32.Proofs.InstructionCodec

/-!
# Instructions and words in both directions

Twelve bits of a displacement reach the word and come back sign extended, and whatever a word is
decoded to has such a displacement already. So encoding and decoding an instruction extends the low
bits of its displacement, and no more than that: `decode_encode_eq`.
-/

namespace Toolchain32

open Fallible

def signExtended (d : Int16) : Int16 := .ofBitVec ((d.toBitVec.setWidth 12).signExtend 16)

theorem toInt_ofDisplacementField (f : Fin 4096) :
    (ofDisplacementField f).toInt = if f.val < 0x800 then (f.val : Int) else f.val - 0x1000 := by
  have hlt := f.isLt
  have hmod : (UInt32.ofNat f.val).toNat % 0x1000 = f.val := by
    rw [UInt32.toNat_ofNat']
    omega
  unfold ofDisplacementField Word.displacement
  rw [hmod]
  by_cases h : f.val < 0x800
  · rw [if_pos h, if_pos (by omega)]
    exact Int16.toInt_ofInt_of_le (by omega) (by omega)
  · rw [if_neg h, if_neg (by omega)]
    exact Int16.toInt_ofInt_of_le (by omega) (by omega)

theorem fits_ofDisplacementField (f : Fin 4096) : FitsDisplacement (ofDisplacementField f) := by
  have hlt := f.isLt
  rw [FitsDisplacement, toInt_ofDisplacementField]
  split <;> omega

theorem toInt_signExtended (d : Int16) : (signExtended d).toInt = d.toInt.bmod 4096 := by
  change ((d.toBitVec.setWidth 12).signExtend 16).toInt = d.toBitVec.toInt.bmod 4096
  rw [BitVec.toInt_signExtend_of_le (by decide), BitVec.toInt_setWidth, BitVec.toInt_eq_toNat_bmod]
  exact (Int.bmod_bmod_of_dvd (by decide)).symm

theorem rereadDisplacement_eq_signExtended (d : Int16) : rereadDisplacement d = signExtended d := by
  apply Int16.toInt_inj.mp
  rw [rereadDisplacement, toInt_ofDisplacementField, toInt_signExtended, val_displacementField]
  rw [Int.bmod_def]
  by_cases h : (d.toInt % 4096).toNat < 0x800
  · rw [if_pos h]
    split <;> omega
  · rw [if_neg h]
    split <;> omega

namespace Instruction

variable {i : Instruction} {w : Word}

def Fitted (i : Instruction) : Prop := ∀ d ∈ i.displacement?, FitsDisplacement d

theorem displacement?_reread (i : Instruction) :
    i.reread.displacement? = i.displacement?.map signExtended := by
  cases i <;> simp [reread, displacement?, rereadDisplacement_eq_signExtended]

theorem fitted_of_member {α : Type} {family : List α} {n : Nat} {make : α → Instruction}
    (hfamily : ∀ x ∈ family, (make x).Fitted) (h : member w family n make = .ok i) : i.Fitted := by
  unfold member at h
  cases hx : family[n]? with
  | none => simp [hx] at h
  | some x =>
    rw [hx] at h
    cases h
    exact hfamily x (List.mem_of_getElem? hx)

theorem fitted_of_ofLoadFields {f : Fields} (h : ofLoadFields w f = .ok i) : i.Fitted := by
  have hd := fits_ofDisplacementField f.displacement
  unfold ofLoadFields at h
  split at h
  case h_1 | h_5 | h_6 | h_7 | h_8 =>
    obtain ⟨s, -, rfl⟩ := map_eq_ok.mp h
    simp [Fitted, displacement?, hd]
  case h_2 =>
    cases h
    simp [Fitted, displacement?, hd]
  case h_3 | h_4 =>
    cases h
    split <;> simp [Fitted, displacement?, hd]
  case h_9 => cases h

theorem fitted_of_ofFields {f : Fields} (h : ofFields w f = .ok i) : i.Fitted := by
  have hd := fits_ofDisplacementField f.displacement
  unfold ofFields at h
  -- By opcode: halt and interrupt, jumps, loads, no instruction, and the families that are lists.
  split at h
  case h_1 | h_2 =>
    cases h
    simp [Fitted, displacement?]
  case h_4 =>
    split at h <;> exact fitted_of_member (by simp [Fitted, displacement?, hd]) h
  case h_10 => exact fitted_of_ofLoadFields h
  case h_11 => cases h
  all_goals exact fitted_of_member (by simp [Fitted, displacement?, hd]) h

theorem fitted_of_decode (h : decode w = .ok i) : i.Fitted := fitted_of_ofFields h

/-- For every instruction with any displacement, encoding and decoding gives the instruction with
its displacement replaced by the sign extension of the low twelve bits, which is the instruction
itself if the displacement has no more; and every word that is an instruction at all has one that is
given back. -/
theorem decode_encode_eq (i : Instruction) :
    decode i.encode = .ok i.reread ∧ i.reread.displacement? = i.displacement?.map signExtended ∧
      (i.Fitted → decode i.encode = .ok i) ∧ ∀ w, decode w = .ok i → decode i.encode = .ok i := by
  refine ⟨decode_encode i, displacement?_reread i, decode_encode_of_fits, ?_⟩
  intro w hw
  exact decode_encode_of_fits (fitted_of_decode hw)

/-- A call whose displacement has all twelve low bits set, and a word that is a halt although its
other fields are not zero. -/
theorem decode_encode_eq_wideCall :
    let i := call .zero .stackPointer 4095
    let j := call .zero .stackPointer (-1)
    ¬ i.Fitted ∧ decode i.encode = .ok j ∧ j.Fitted ∧ decode j.encode = .ok j ∧
      decode 0x0ABCDEF0 = .ok halt ∧ decode halt.encode = .ok halt := by
  intro i j
  have hi : ¬ i.Fitted := fun h => absurd (h 4095 rfl) (by decide)
  have hj : j.Fitted := by
    intro d hd
    cases hd
    decide
  have hreread : i.reread = j := by
    change call .zero .stackPointer (rereadDisplacement 4095) = j
    rw [rereadDisplacement_eq_signExtended]
    rfl
  have hhalt : decode 0x0ABCDEF0 = .ok halt := rfl
  exact ⟨hi, hreread ▸ (decode_encode_eq i).1, hj, (decode_encode_eq j).2.2.1 hj, hhalt,
    (decode_encode_eq halt).2.2.2 _ hhalt⟩

end Instruction

end Toolchain32
