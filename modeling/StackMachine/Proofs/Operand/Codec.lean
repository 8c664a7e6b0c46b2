import StackMachine.Proofs.Operand.RoundTrip

namespace StackMachine.Operand

theorem low_byte_or (offset : Int32) (base : UInt8) :
    ((offset <<< 8) ||| base.toUInt32.toInt32).toUInt32.toUInt8 = base := by
  apply UInt8.toBitVec_inj.mp
  ext i hi
  simp

/-- The upper bits and the low byte make up a word. -/
theorem shift_or_low_byte (payload : Int32) :
    ((payload >>> 8) <<< 8) ||| payload.toUInt32.toUInt8.toUInt32.toInt32 = payload := by
  apply Int32.toBitVec_inj.mp
  ext i hi
  have hlow : (payload.toBitVec % 256#32)[i] = (decide (i < 8) && payload.toBitVec[i]) := by
    simp only [BitVec.getElem_eq_testBit_toNat, BitVec.toNat_umod]
    exact Nat.testBit_mod_two_pow _ 8 i
  by_cases h8 : i < 8
  · simp [hlow, h8]
  · have hi' : 8 + (i - 8) = i := by omega
    simp [hlow, h8, BitVec.getElem_sshiftRight, hi', hi]

theorem toInt_shiftRight (payload : Int32) : (payload >>> 8).toInt = payload.toInt / 2 ^ 8 := by
  have hshift : (payload >>> 8).toInt = payload.toInt >>> (8 : Nat) := by
    rw [← Int32.toInt_toBitVec, ← Int32.toInt_toBitVec, ← BitVec.toInt_sshiftRight]
    simp
  exact hshift.trans (Int.shiftRight_eq_div_pow _ 8)

/-- The offsets that fit are those of 24 bits. -/
theorem fits_iff {offset : Int32} : leastOffset ≤ offset ∧ offset ≤ greatestOffset ↔
    -2 ^ 23 ≤ offset.toInt ∧ offset.toInt < 2 ^ 23 := by
  have hleast : leastOffset.toInt = -2 ^ 23 := by decide
  have hgreatest : greatestOffset.toInt = 2 ^ 23 - 1 := by decide
  rw [Int32.le_iff_toInt_le, Int32.le_iff_toInt_le, hleast, hgreatest]
  omega

/-- The upper 24 bits of a word are an offset that fits. -/
theorem shift_bounds (payload : Int32) :
    leastOffset ≤ payload >>> 8 ∧ payload >>> 8 ≤ greatestOffset := by
  have hlow := payload.le_toInt
  have hhigh := payload.toInt_lt
  rw [fits_iff, toInt_shiftRight]
  omega

/-- An operand that is decoded from the payload of another one has that payload. -/
theorem payload_ofPayload_payload (o : Operand) :
    (ofPayload o.mode o.payload).payload = o.payload := by
  cases o with
  | immediate value => rfl
  | memory index => rfl
  | register index => simp [ofPayload, payload, mode]
  | indexed base offset => exact shift_or_low_byte _

theorem Named.ofPayload_payload {o : Operand} (h : o.Named) :
    (ofPayload o.mode o.payload).Named := by
  cases o with
  | immediate value => trivial
  | memory index => trivial
  | register index => simpa [ofPayload, payload, mode, Named] using h
  | indexed base offset =>
    change ((offset <<< 8) ||| base.toUInt32.toInt32).toUInt32.toUInt8.toNat < namedRegisters
    rw [low_byte_or]
    exact h

/-- What a form stands for has a register with a name, if it has one. -/
theorem Form.Spells.named {form : Form} {taken : List UInt8} {o : Operand}
    (h : form.Spells taken o) : o.Named := by
  cases h with
  | offset hspelled =>
    cases hspelled with
    | intro _ _ _ _ _ hb _ => exact hb
  | pointer _ _ _ hb => exact hb
  | register _ hi => exact hi
  | cell | number | character | escape => trivial

/-- An operand that was read has a register with a name, if it has one. -/
theorem named_of_read? {text : List UInt8} {o : Operand} {used : Nat}
    (h : read? text = some (o, used)) : o.Named := by
  obtain ⟨form, ⟨taken, rest, -, -, hspells, -⟩, -⟩ := read?_eq_some_iff.mp h
  exact hspells.named

end StackMachine.Operand
