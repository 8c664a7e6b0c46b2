import StackMachine.Bytes
import Mathlib.Data.Nat.Digits.Defs
import Mathlib.Data.UInt
import Mathlib.Tactic.Common

namespace StackMachine.Bytes

theorem or_shiftLeft {a i : Nat} (h : a < 2 ^ i) (n : Nat) : a ||| n <<< i = n * 2 ^ i + a := by
  rw [Nat.or_comm, ← Nat.shiftLeft_add_eq_or_of_lt h, Nat.shiftLeft_eq]

/-- A word is the sum of its bytes, each in its place. -/
theorem toNat_word (a b c d : UInt8) :
    (word a b c d).toNat =
      d.toNat * 2 ^ 24 + (c.toNat * 2 ^ 16 + (b.toNat * 2 ^ 8 + a.toNat)) := by
  have ha := a.toNat_lt
  have hb := b.toNat_lt
  have hc := c.toNat_lt
  have hshift (e : UInt8) {i : Nat} (hi : i ≤ 24) : e.toNat <<< i % 2 ^ 32 = e.toNat <<< i := by
    have hpow : 2 ^ i ≤ 2 ^ 24 := Nat.pow_le_pow_right (by decide) hi
    have hle := Nat.mul_le_mul (Nat.le_of_lt_succ e.toNat_lt) hpow
    rw [Nat.shiftLeft_eq]
    apply Nat.mod_eq_of_lt
    omega
  have htwo := or_shiftLeft (i := 8) ha b.toNat
  have hthree := or_shiftLeft (a := b.toNat * 2 ^ 8 + a.toNat) (i := 16) (by omega) c.toNat
  have hfour := or_shiftLeft (a := c.toNat * 2 ^ 16 + (b.toNat * 2 ^ 8 + a.toNat)) (i := 24)
    (by omega) d.toNat
  simp only [word, UInt32.toNat_or, UInt32.toNat_shiftLeft, UInt8.toNat_toUInt32,
    UInt32.reduceToNat, Nat.reduceMod]
  rw [hshift b (by decide), hshift c (by decide), hshift d (by decide), htwo, hthree, hfour]

/-- The bytes of a word give the word back. -/
theorem word_ofWord (w : UInt32) :
    word w.toUInt8 (w >>> 8).toUInt8 (w >>> 16).toUInt8 (w >>> 24).toUInt8 = w := by
  have hw := w.toNat_lt
  apply UInt32.toNat_inj.mp
  rw [toNat_word]
  simp only [UInt32.toNat_toUInt8, UInt32.toNat_shiftRight, UInt32.reduceToNat, Nat.reduceMod,
    Nat.shiftRight_eq_div_pow, Nat.reducePow]
  omega

/-- The word of some bytes has those bytes. -/
theorem ofWord_word (a b c d : UInt8) : ofWord (word a b c d) = [a, b, c, d] := by
  have ha := a.toNat_lt
  have hb := b.toNat_lt
  have hc := c.toNat_lt
  have hd := d.toNat_lt
  have hword := toNat_word a b c d
  simp only [ofWord, List.cons.injEq, and_true]
  refine ⟨?_, ?_, ?_, ?_⟩ <;> apply UInt8.toNat_inj.mp <;>
    simp only [UInt32.toNat_toUInt8, UInt32.toNat_shiftRight, UInt32.reduceToNat, Nat.reduceMod,
      Nat.shiftRight_eq_div_pow, Nat.reducePow, hword]
  all_goals omega

/-- Four bytes, one by one. -/
theorem toList_of_size {piece : Array UInt8} (h : piece.size = 4) :
    piece.toList = [piece.getD 0 0, piece.getD 1 0, piece.getD 2 0, piece.getD 3 0] := by
  apply List.ext_getElem
  · simpa using h
  · intro i hi hi'
    simp only [Array.length_toList, h] at hi
    have hcases : i = 0 ∨ i = 1 ∨ i = 2 ∨ i = 3 := by omega
    rcases hcases with rfl | rfl | rfl | rfl <;> simp [h]

theorem ofWord_injective : Function.Injective ofWord := by
  intro v w h
  simp only [ofWord, List.cons.injEq, and_true] at h
  obtain ⟨hfirst, hsecond, hthird, hfourth⟩ := h
  rw [← word_ofWord v, ← word_ofWord w, hfirst, hsecond, hthird, hfourth]

/-- The bytes of a double word are its digits. -/
theorem ofDigits_ofDoubleWord (word : UInt64) :
    Nat.ofDigits 256 ((ofDoubleWord word).map UInt8.toNat) = word.toNat := by
  have hword := word.toNat_lt
  simp only [ofDoubleWord, List.map_cons, List.map_nil, Nat.ofDigits_cons, Nat.ofDigits_nil,
    UInt64.toNat_toUInt8, UInt64.toNat_shiftRight, UInt64.reduceToNat, Nat.reduceMod,
    Nat.shiftRight_eq_div_pow, Nat.reducePow]
  omega

/-- The byte of a double word at a place, counted from the low end. -/
def byteAt (word : UInt64) (place : Nat) : UInt8 :=
  (word >>> UInt64.ofNat (8 * place)).toUInt8

/-- A double word with the byte at a place replaced. -/
def setByte (word : UInt64) (place : Nat) (byte : UInt8) : UInt64 :=
  (word &&& ~~~(0xFF <<< UInt64.ofNat (8 * place))) |||
    (byte.toUInt64 <<< UInt64.ofNat (8 * place))

theorem ofDoubleWord_eq (word : UInt64) :
    ofDoubleWord word = (List.range 8).map (byteAt word) := by
  simp [ofDoubleWord, byteAt, List.range_succ]

theorem toNat_shift {place : Nat} (h : place < 8) :
    ((UInt64.ofNat (8 * place)).toBitVec % 64).toNat = 8 * place := by
  change 8 * place % 2 ^ 64 % 64 = 8 * place
  omega

theorem getLsbD_byteAt {place i : Nat} (hp : place < 8) (hi : i < 8) (word : UInt64) :
    (byteAt word place).toBitVec.getLsbD i = word.toBitVec.getLsbD (8 * place + i) := by
  simp only [byteAt, UInt64.toBitVec_toUInt8, UInt64.toBitVec_shiftRight, BitVec.getLsbD_setWidth,
    BitVec.ushiftRight_eq', BitVec.getLsbD_ushiftRight, toNat_shift hp, hi, decide_true,
    Bool.true_and]

theorem ofDoubleWord_injective : Function.Injective ofDoubleWord := by
  intro v w h
  simp only [ofDoubleWord_eq, List.map_inj_left, List.mem_range] at h
  apply UInt64.toBitVec_inj.mp
  apply BitVec.eq_of_getLsbD_eq
  intro i hi
  have hplace : i / 8 < 8 := by omega
  have hbit : i % 8 < 8 := Nat.mod_lt i (by decide)
  have hsplit : 8 * (i / 8) + i % 8 = i := Nat.div_add_mod i 8
  rw [← hsplit, ← getLsbD_byteAt hplace hbit, ← getLsbD_byteAt hplace hbit, h _ hplace]

theorem getLsbD_setByte {place i : Nat} (hp : place < 8) (hi : i < 64) (word : UInt64)
    (byte : UInt8) : (setByte word place byte).toBitVec.getLsbD i =
      if 8 * place ≤ i ∧ i < 8 * place + 8 then byte.toBitVec.getLsbD (i - 8 * place)
      else word.toBitVec.getLsbD i := by
  have hmask : (0xFF : UInt64).toBitVec.getLsbD (i - 8 * place) = decide (i - 8 * place < 8) :=
    Nat.testBit_two_pow_sub_one 8 _
  have hbyte : byte.toUInt64.toBitVec.getLsbD (i - 8 * place) =
      byte.toBitVec.getLsbD (i - 8 * place) := by
    rw [UInt8.toBitVec_toUInt64, BitVec.getLsbD_setWidth]
    simp
    omega
  simp only [setByte, UInt64.toBitVec_or, UInt64.toBitVec_and, UInt64.toBitVec_not,
    UInt64.toBitVec_shiftLeft, BitVec.getLsbD_or, BitVec.getLsbD_and, BitVec.getLsbD_not,
    BitVec.shiftLeft_eq', BitVec.getLsbD_shiftLeft, toNat_shift hp, hmask, hbyte, hi]
  by_cases hl : 8 * place ≤ i
  · have hlow : ¬ i < 8 * place := Nat.not_lt.mpr hl
    by_cases hh : i < 8 * place + 8
    · have hin : i - 8 * place < 8 := by omega
      simp [hl, hh, hin, hlow]
    · have hout : byte.toBitVec.getLsbD (i - 8 * place) = false :=
        BitVec.getLsbD_of_ge _ _ (by omega)
      have hin : ¬ i - 8 * place < 8 := by omega
      simp [hl, hh, hin, hout]
  · have hlow : i < 8 * place := Nat.lt_of_not_le hl
    simp [hl, hlow]

/-- The other bytes stay as they are. -/
theorem byteAt_setByte {place other : Nat} (hp : place < 8) (ho : other < 8) (word : UInt64)
    (byte : UInt8) :
    byteAt (setByte word place byte) other = if other = place then byte else byteAt word other := by
  apply UInt8.toBitVec_inj.mp
  apply BitVec.eq_of_getLsbD_eq
  intro i hi
  rw [getLsbD_byteAt ho hi, getLsbD_setByte hp (by omega)]
  by_cases h : other = place
  · subst h
    simp [hi]
  · rw [if_neg (by omega), if_neg h, getLsbD_byteAt ho hi]

theorem ofDoubleWord_setByte {place : Nat} (hp : place < 8) (word : UInt64) (byte : UInt8) :
    ofDoubleWord (setByte word place byte) = (ofDoubleWord word).set place byte := by
  simp only [ofDoubleWord_eq]
  apply List.ext_getElem
  · simp
  · intro i hi hi'
    have hin : i < 8 := by simpa using hi
    simp only [List.getElem_map, List.getElem_range, List.getElem_set, byteAt_setByte hp hin]
    by_cases h : i = place
    · simp [h]
    · simp [h, Ne.symm h]

end StackMachine.Bytes
