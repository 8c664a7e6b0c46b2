import StackMachine.Proofs.Operand.Written

namespace StackMachine

open Text

namespace Operand

/-- The operand that is read from the text of an operand. -/
def reread : Operand → Operand
  | register index =>
    if index.toNat < namedRegisters then register index else immediate index.toUInt32.toInt32
  | indexed base offset =>
    if base.toNat < namedRegisters then indexed base offset else immediate 0
  | o => o

theorem reread_named {o : Operand} (h : o.Named) : o.reread = o := by
  cases o with
  | immediate value => rfl
  | memory index => rfl
  | register index => exact if_pos h
  | indexed base offset => exact if_pos h

/-- A byte is as large as the number it is a register of. -/
theorem toInt_toUInt32 (index : UInt8) : index.toUInt32.toInt32.toInt = index.toNat := by
  have hlt := index.toNat_lt
  rw [← UInt32.ofNat_uInt8ToNat, UInt32.toInt32_ofNat', ← Int32.ofInt_eq_ofNat]
  exact Int32.toInt_ofInt_of_le (by omega) (by omega)

theorem toNat_low_byte {payload : Int32} (hl : 0 ≤ payload.toInt) (hh : payload.toInt < 256) :
    (payload.toUInt32.toUInt8.toNat : Int) = payload.toInt := by
  have hnat : payload.toUInt32.toNat = payload.toInt.toNat := by
    have hlt := payload.toBitVec.isLt
    have hint := BitVec.toInt_eq_toNat_cond payload.toBitVec
    rw [Int32.toInt_toBitVec, Int32.toNat_toBitVec] at hint
    rw [Int32.toNat_toBitVec] at hlt
    split at hint <;> omega
  rw [UInt32.toNat_toUInt8, hnat]
  omega

/-- A register is read from its text as it is if it has a name and the payload is its number. -/
theorem reread_register_iff (payload : Int32) :
    (ofPayload .register payload).reread.mode = .register ∧
      (ofPayload .register payload).reread.payload = payload ↔ 0 ≤ payload ∧ payload ≤ 25 := by
  have hzero : (0 : Int32).toInt = 0 := by decide
  have hlast : (25 : Int32).toInt = 25 := by decide
  simp only [ofPayload, reread, Int32.le_iff_toInt_le, hzero, hlast]
  by_cases hn : payload.toUInt32.toUInt8.toNat < namedRegisters
  · rw [if_pos hn, Operand.payload, ← Int32.toInt_inj, toInt_toUInt32]
    have hnumber : payload.toUInt32.toUInt8.toNat < 26 := hn
    constructor
    · rintro ⟨-, hpayload⟩
      omega
    · rintro ⟨hl, hh⟩
      exact ⟨rfl, toNat_low_byte hl (by omega)⟩
  · rw [if_neg hn]
    constructor
    · rintro ⟨hmode, -⟩
      cases hmode
    · rintro ⟨hl, hh⟩
      have hbyte := toNat_low_byte hl (by omega)
      have hnumber : ¬ payload.toUInt32.toUInt8.toNat < 26 := hn
      omega

/-- A register with an offset is read from its text as it is if it has a name. -/
theorem reread_indexed_iff (payload : Int32) :
    (ofPayload .indexed payload).reread.mode = .indexed ∧
      (ofPayload .indexed payload).reread.payload = payload ↔
      payload.toUInt32.toUInt8 ≤ 25 := by
  have hlast : (25 : UInt8).toNat = 25 := rfl
  simp only [ofPayload, reread, UInt8.le_iff_toNat_le, hlast]
  by_cases hn : payload.toUInt32.toUInt8.toNat < namedRegisters
  · rw [if_pos hn]
    exact ⟨fun _ => Nat.le_of_lt_succ hn, fun _ => ⟨rfl, shift_or_low_byte payload⟩⟩
  · rw [if_neg hn]
    constructor
    · rintro ⟨hmode, -⟩
      cases hmode
    · intro hle
      exact absurd (Nat.lt_succ_of_le hle) hn

theorem signedBytes_register (index : UInt8) :
    signedBytes index.toUInt32.toInt32 = digitBytes index.toNat := by
  have hneg : ¬ (index.toNat : Int) < 0 := by omega
  rw [signedBytes_eq, toInt_toUInt32, if_neg hneg, Int.natAbs_natCast]

theorem ofChars_digitsOf (n : Nat) : Bytes.ofChars (digitsOf n) = digitBytes n := by
  apply Bytes.ofChars_ascii
  intro c hc
  have hprintable := (printable_digitsOf hc).2
  omega

/-- Where no form matches, nothing is read. -/
theorem read?_eq_none {text : List UInt8} (h : ∀ form : Form, form.reader text = none) :
    read? text = none := by
  rw [← Option.not_isSome_iff_eq_none, isSome_read?_iff]
  rintro ⟨form, o, used, hmatch⟩
  have hread := matchOf_eq_some_iff.mpr hmatch
  rw [matchOf, h form] at hread
  cases hread

/-- No form takes a number in brackets with something else than a bracket behind it. -/
theorem read?_bracketed_number {n : Nat} {direction : UInt8} {rest : List UInt8}
    (hblank : isBlankByte direction = false) (hclose : direction ≠ ']'.toUInt8) :
    read? ('['.toUInt8 :: (digitBytes n ++ (' '.toUInt8 :: direction :: rest))) = none := by
  have hnumeral := numeral_digitBytes n
  obtain ⟨b, digits, hcons, -, -, hregister, -⟩ := hnumeral.exists_first
  generalize htail : ' '.toUInt8 :: direction :: rest = tail
  have hskip := @skipBlanks_bracket [] (digitBytes n ++ tail) nofun
  rw [List.nil_append] at hskip
  obtain ⟨hname, hnumber, hcharacter, hescape⟩ := bracketed_ne hskip
  have hinner : registerIndex (skipBlanks (digitBytes n ++ tail)) = none := by
    have hstart := @skipBlanks_numeral tail [] _ _ nofun hnumeral
    rw [List.nil_append] at hstart
    rw [hstart, hcons, List.cons_append]
    exact registerIndex_ne hregister
  have hends : EndsNumber tail := by
    rw [← htail]
    rintro b' ⟨⟩
    rfl
  have hindex : number (digitBytes n ++ tail) = some (Int32.ofInt n, tail) :=
    number_eq_some_iff.mpr ⟨[], _, _, nofun, hnumeral, hends, rfl, rfl⟩
  have hopen : expect ']' (skipBlanks tail) = none := by
    have hdirected : skipBlanks tail = direction :: rest := by
      rw [← htail]
      apply skipBlanks_append blanks_space
      rintro b' ⟨⟩
      exact hblank
    rw [hdirected]
    exact expect_ne hclose
  apply read?_eq_none
  intro form
  cases form with
  | offset => simp only [Form.reader, indexedForm, hskip, expect_self, hinner, bind, Option.bind]
  | pointer => simp only [Form.reader, pointerForm, hskip, expect_self, hinner, bind, Option.bind]
  | cell =>
    simp only [Form.reader, memoryForm, hskip, expect_self, hindex, hopen, bind, Option.bind]
  | register => exact hname
  | number => exact hnumber
  | character => exact hcharacter
  | escape => exact hescape

end Operand

namespace Instruction

/-- The number of a register without a name is read as a value. -/
theorem readOperand_unnamed_register (i : Instruction) {index : UInt8}
    (h : ¬ index.toNat < namedRegisters) :
    i.readOperand (Operand.register index).text.toList =
      (.immediate index.toUInt32.toInt32, []) := by
  have hread : Operand.read? (Operand.digitBytes index.toNat) =
      some (.immediate index.toUInt32.toInt32, (Operand.digitBytes index.toNat).length) := by
    rw [← Operand.signedBytes_register]
    have himmediate := @Operand.read?_writtenBytes [] (.immediate index.toUInt32.toInt32) []
      trivial nofun nofun
    rwa [List.nil_append, List.append_nil] at himmediate
  have hdrop : Bytes.dropBytes? (Operand.digitBytes index.toNat).length (digitsOf index.toNat) =
      some [] := by
    have hall := Bytes.dropBytes?_append (digitsOf index.toNat) []
    rwa [Operand.ofChars_digitsOf, List.append_nil] at hall
  rw [Operand.text, toList_registerName_number h]
  simp only [readOperand, Operand.ofChars_digitsOf, hread, hdrop, Option.getD_some]
  rfl

/-- A register without a name is not read with an offset. -/
theorem readOperand_unnamed_base (i : Instruction) {base : UInt8} (offset : Int32)
    (h : ¬ base.toNat < namedRegisters) :
    i.readOperand (Operand.indexed base offset).text.toList =
      (.immediate 0,
        [.operandNotRead i (Operand.indexed base offset).text]) := by
  have hascii : ∀ c ∈ (Operand.indexed base offset).written, c.toNat < 128 := by
    intro c hc
    have hprintable := (Operand.printable_written hc).2
    omega
  have hsign : ∃ c : Char, (if offset.toInt < 0 then '-' else '+') = c ∧
      Operand.isBlankByte c.toUInt8 = false ∧ c.toUInt8 ≠ ']'.toUInt8 := by
    by_cases hneg : offset.toInt < 0
    · exact ⟨'-', if_pos hneg, by decide, by decide⟩
    · exact ⟨'+', if_neg hneg, by decide, by decide⟩
  obtain ⟨direction, hwritten, hblank, hclose⟩ := hsign
  have hread : Operand.read? (Bytes.ofChars (Operand.indexed base offset).text.toList) = none := by
    have hcomment : (Operand.indexed base offset).comment = [] := rfl
    rw [Operand.toList_text, hcomment, List.append_nil, Bytes.ofChars_ascii hascii]
    simp only [Operand.written, hwritten, toList_registerName_number h, List.cons_append,
      List.map_cons, List.append_assoc, List.map_append, List.nil_append]
    exact Operand.read?_bracketed_number hblank hclose
  simp only [readOperand, hread, String.ofList_toList]

/-- The text of an operand is read as the operand that it can be read as. -/
theorem readOperand_text_eq (i : Instruction) {o : Operand} (hf : o.Fits) :
    (i.readOperand o.text.toList).1 = o.reread := by
  by_cases h : o.Named
  · rw [i.readOperand_text h hf, Operand.reread_named h]
  · cases o with
    | immediate value => exact absurd trivial h
    | memory index => exact absurd trivial h
    | register index =>
      have hn : ¬ index.toNat < namedRegisters := h
      rw [i.readOperand_unnamed_register hn, Operand.reread, if_neg hn]
    | indexed base offset =>
      have hn : ¬ base.toNat < namedRegisters := h
      rw [i.readOperand_unnamed_base offset hn, Operand.reread, if_neg hn]

end Instruction

end StackMachine
