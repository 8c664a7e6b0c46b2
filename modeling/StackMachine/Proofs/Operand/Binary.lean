import StackMachine.Proofs.Assembly.Resolution
import StackMachine.Proofs.Operand.Reread

namespace StackMachine

namespace Operand

/-- The operand that the payload has room for: an offset is taken modulo `2 ^ 24`, with the sign in
the uppermost of the 24 bits. -/
def narrowed : Operand → Operand
  | indexed base offset => indexed base (Int32.ofInt (offset.toInt.bmod (2 ^ 24)))
  | o => o

/-- The low byte of the shifted offset is empty, so the register is added to it. -/
theorem shift_or_eq_add (offset : Int32) (base : UInt8) :
    (offset <<< 8) ||| base.toUInt32.toInt32 = offset * 256 + base.toUInt32.toInt32 := by
  apply Int32.toBitVec_inj.mp
  have hshift : (offset <<< 8).toBitVec = (offset * 256).toBitVec := by
    rw [Int32.toBitVec_mul, Int32.toBitVec_shiftLeft]
    exact BitVec.shiftLeft_eq_mul_twoPow _ 8
  have hdisjoint : (offset <<< 8).toBitVec &&& base.toUInt32.toInt32.toBitVec = 0#32 := by
    ext i hi
    simp only [BitVec.getElem_and, BitVec.getElem_zero]
    by_cases h : i < 8
    · simp [h]
    · simp [BitVec.getLsbD_of_ge _ _ (Nat.le_of_not_lt h)]
  rw [Int32.toBitVec_or, Int32.toBitVec_add, ← hshift,
    BitVec.add_eq_or_of_and_eq_zero _ _ hdisjoint]

theorem toInt_payload_indexed (base : UInt8) (offset : Int32) :
    (indexed base offset).payload.toInt = (offset.toInt * 256 + base.toNat).bmod (2 ^ 32) := by
  have hunit : (256 : Int32).toInt = 256 := by decide
  rw [payload, shift_or_eq_add, Int32.toInt_add, Int32.toInt_mul, hunit, toInt_toUInt32,
    Int.bmod_add_bmod]

/-- The upper 24 bits of a payload are the low 24 bits of the offset. -/
theorem shiftRight_payload (base : UInt8) (offset : Int32) :
    (indexed base offset).payload >>> 8 = Int32.ofInt (offset.toInt.bmod (2 ^ 24)) := by
  have hbase := base.toNat_lt
  have hlow := @Int.le_bmod offset.toInt (2 ^ 24) (by decide)
  have hhigh := @Int.bmod_lt offset.toInt (2 ^ 24) (by decide)
  apply Int32.toInt_inj.mp
  rw [toInt_shiftRight, toInt_payload_indexed, Int32.toInt_ofInt_of_le (by omega) (by omega)]
  simp only [Int.bmod_def]
  split <;> split <;> omega

/-- What is decoded from the payload of an operand is what the payload had room for. -/
theorem ofPayload_payload (o : Operand) : ofPayload o.mode o.payload = o.narrowed := by
  cases o with
  | immediate value => rfl
  | memory index => rfl
  | register index => simp [mode, payload, ofPayload, narrowed]
  | indexed base offset =>
    rw [mode, ofPayload, shiftRight_payload, payload, low_byte_or, narrowed]

theorem bmod_eq_self_iff (offset : Int32) : Int32.ofInt (offset.toInt.bmod (2 ^ 24)) = offset ↔
    -2 ^ 23 ≤ offset.toInt ∧ offset.toInt ≤ 2 ^ 23 - 1 := by
  have hlow := @Int.le_bmod offset.toInt (2 ^ 24) (by decide)
  have hhigh := @Int.bmod_lt offset.toInt (2 ^ 24) (by decide)
  rw [← Int32.toInt_inj, Int32.toInt_ofInt_of_le (by omega) (by omega)]
  constructor
  · intro h
    omega
  · intro h
    exact Int.bmod_eq_of_le (by omega) (by omega)

/-- There is room for an operand unless it has an offset that does not fit. -/
theorem narrowed_eq_self_iff (o : Operand) : o.narrowed = o ↔
    ∀ base offset, o = indexed base offset →
      -2 ^ 23 ≤ offset.toInt ∧ offset.toInt ≤ 2 ^ 23 - 1 := by
  cases o with
  | immediate value => simp [narrowed]
  | memory index => simp [narrowed]
  | register index => simp [narrowed]
  | indexed base offset =>
    rw [narrowed, indexed.injEq, bmod_eq_self_iff]
    constructor
    · intro h base' offset' heq
      cases heq
      exact h.2
    · intro h
      exact ⟨rfl, h base offset rfl⟩

/-- An offset that fits comes out of the payload as it went in. -/
theorem ofPayload_indexed {offset : Int32} (base : UInt8)
    (h : leastOffset ≤ offset ∧ offset ≤ greatestOffset) :
    ofPayload .indexed (indexed base offset).payload = indexed base offset := by
  rw [fits_iff] at h
  have hdecoded := ofPayload_payload (indexed base offset)
  rwa [(narrowed_eq_self_iff _).mpr] at hdecoded
  intro base' offset' heq
  cases heq
  omega

end Operand

/-- What counts of a payload. -/
def Mode.kept (m : Mode) (payload : Int32) : Int32 :=
  if m = .register then payload &&& 0xFF else payload

namespace Operand

theorem low_byte_eq (payload : Int32) :
    payload.toUInt32.toUInt8.toUInt32.toInt32 = payload &&& 0xFF := by
  apply Int32.toBitVec_inj.mp
  ext i hi
  have hlow : (payload.toBitVec % 256#32)[i] = (decide (i < 8) && payload.toBitVec[i]) := by
    simp only [BitVec.getElem_eq_testBit_toNat, BitVec.toNat_umod]
    exact Nat.testBit_mod_two_pow _ 8 i
  have hmask : (255#32)[i] = decide (i < 8) := Nat.testBit_two_pow_sub_one 8 i
  simp [hlow, hmask, Bool.and_comm]

/-- The operand that is decoded from a payload has a payload with all that counts. -/
theorem payload_ofPayload (m : Mode) (payload : Int32) :
    (ofPayload m payload).payload = m.kept payload := by
  cases m with
  | immediate => rfl
  | memory => rfl
  | register => exact low_byte_eq payload
  | indexed => exact shift_or_low_byte payload

end Operand

section Bytes

/-- The bytes of an instruction with an operand are read as its opcode, its mode and its payload. -/
theorem Cursor.reads_operand (i : Instruction) (o : Operand) {bytes : Array UInt8}
    {before after : List UInt8}
    (hb : bytes.toList = before ++ (i.firstByte o.mode.number :: o.bytes) ++ after) :
    (Cursor.mk bytes before.length).byte =
        .ok (i.firstByte o.mode.number, ⟨bytes, before.length + 1⟩) ∧
      (Cursor.mk bytes (before.length + 1)).word = .ok (o.payload, ⟨bytes, before.length + 5⟩) := by
  have hfirst : bytes.toList = before ++ [i.firstByte o.mode.number] ++ (o.bytes ++ after) := by
    simp [hb]
  have hsecond : bytes.toList = (before ++ [i.firstByte o.mode.number]) ++
      Bytes.ofWord o.payload.toUInt32 ++ after := by
    simp [hb, Operand.bytes]
  have hword := Cursor.word_append hsecond
  rw [List.length_append, List.length_singleton, Int32.toInt32_toUInt32] at hword
  exact ⟨Cursor.byte_append hfirst, hword⟩

/-- A first byte and a word that were read stand there. -/
theorem Cursor.extract_of_reads {c c₁ c₂ : Cursor} {byte : UInt8} {payload : Int32}
    (hbyte : c.byte = .ok (byte, c₁)) (hword : c₁.word = .ok (payload, c₂)) :
    (c.bytes.extract c.position (c.position + 5)).toList =
      byte :: Bytes.ofWord payload.toUInt32 := by
  obtain ⟨hfirst, -⟩ := Cursor.byte_eq hbyte
  obtain ⟨hrest, -⟩ := Cursor.word_eq hword
  rw [Array.toList_extract, List.extract_eq_take_drop, Nat.add_sub_cancel_left, hfirst, hrest]
  rfl

/-- An instruction with what was decoded from a payload has the same first byte, and a word in which
all that counts is kept. -/
theorem Instruction.bytes_ofPayload {i : Instruction} {byte : UInt8} (payload : Int32)
    (hi : i.opcode = (splitByte byte).1) :
    let m := Mode.ofByte (splitByte byte).2
    let o := Operand.ofPayload m payload
    i.firstByte o.mode.number :: o.bytes = byte :: Bytes.ofWord (m.kept payload).toUInt32 := by
  intro m o
  have hopcode : ofOpcode? (splitByte byte).1 = some i := by
    rw [← hi]
    exact ofOpcode?_opcode i
  rw [Operand.mode_ofPayload, Operand.bytes, Operand.payload_ofPayload,
    firstByte_splitByte hopcode]

end Bytes

section Assembled

variable {limits : Limits} {lines before after : List String} {line : String} {a : Assembly}
  {i : Instruction} {text : List Char}

/-- The operand of a line is in the assembled program, and what is decoded there is what the payload
had room for. -/
theorem operand_at (ha : assemble limits lines = .ok a) (hl : lines = before ++ line :: after)
    (hs : Statement.ofSource line = .instruction i text) (hi : i.argument = some .operand) :
    let o := (i.readOperand text).1
    let offset := Program.headerSize + codeSize before
    (a.program.bytes.extract offset (offset + 5)).toList = i.firstByte o.mode.number :: o.bytes ∧
      ∃ d, Decoded.read a.program.bytes offset = .ok d ∧ d.instruction = i ∧
        d.operand = o.narrowed := by
  intro o offset
  have hoffset := offset_finalPass ha hl
  constructor
  · have hcode := code_at ha hl
    simp only [hs, hoffset, Statement.size, Statement.code, Instruction.size,
      Instruction.argumentSize, Instruction.encode, hi, Option.isSome_some, ↓reduceIte] at hcode
    exact hcode
  · have hread := (Emitted.read ha ⟨before, line, after, hl, hs, hoffset, rfl⟩).1
    refine ⟨_, hread, Instruction.instruction_coded .., ?_⟩
    simp only [Decoded.operand, Coded.decoded, Instruction.coded, hi]
    exact o.ofPayload_payload

end Assembled

/-- What is decoded from the payload of an operand is the operand with its offset taken modulo
`2 ^ 24`, so the operand itself unless it has an offset that does not fit. The payload of what is
decoded from a payload is that payload, of which only the low byte is kept if it is a register. Both
hold of the bytes in which the first byte of an instruction has the mode and the word behind it is
the payload, wherever they stand and so in assembled programs. -/
theorem operand_binary_round_trip :
    (∀ o : Operand, Operand.ofPayload o.mode o.payload = o.narrowed ∧
      (o.narrowed = o ↔ ∀ base offset, o = .indexed base offset →
        -2 ^ 23 ≤ offset.toInt ∧ offset.toInt ≤ 2 ^ 23 - 1)) ∧
    (∀ (m : Mode) (payload : Int32), (Operand.ofPayload m payload).mode = m ∧
      (Operand.ofPayload m payload).payload = m.kept payload) ∧
    (∀ (i : Instruction) (o : Operand) (bytes : Array UInt8) (before after : List UInt8),
      bytes.toList = before ++ (i.firstByte o.mode.number :: o.bytes) ++ after →
      ∃ byte c₁ payload c₂, (Cursor.mk bytes before.length).byte = .ok (byte, c₁) ∧
        c₁.word = .ok (payload, c₂) ∧ c₂.position = before.length + 5 ∧
        (Instruction.splitByte byte).1 = i.opcode ∧
        Operand.ofPayload (Mode.ofByte (Instruction.splitByte byte).2) payload = o.narrowed) ∧
    (∀ (c c₁ c₂ : Cursor) (byte : UInt8) (payload : Int32),
      c.byte = .ok (byte, c₁) → c₁.word = .ok (payload, c₂) →
      let m := Mode.ofByte (Instruction.splitByte byte).2
      let o := Operand.ofPayload m payload
      (c.bytes.extract c.position (c.position + 5)).toList =
          byte :: Bytes.ofWord payload.toUInt32 ∧
        ∀ i : Instruction, i.opcode = (Instruction.splitByte byte).1 →
          i.firstByte o.mode.number :: o.bytes = byte :: Bytes.ofWord (m.kept payload).toUInt32) ∧
    (∀ (limits : Limits) (lines before after : List String) (line : String) (a : Assembly)
        (i : Instruction) (text : List Char),
      assemble limits lines = .ok a → lines = before ++ line :: after →
      Statement.ofSource line = .instruction i text → i.argument = some .operand →
      let o := (i.readOperand text).1
      let offset := Program.headerSize + codeSize before
      (a.program.bytes.extract offset (offset + 5)).toList =
          i.firstByte o.mode.number :: o.bytes ∧
        ∃ d, Decoded.read a.program.bytes offset = .ok d ∧ d.instruction = i ∧
          d.operand = o.narrowed) := by
  refine ⟨?_, ?_, ?_, ?_, ?_⟩
  · intro o
    exact ⟨o.ofPayload_payload, o.narrowed_eq_self_iff⟩
  · intro m payload
    exact ⟨Operand.mode_ofPayload m payload, Operand.payload_ofPayload m payload⟩
  · intro i o bytes before after hb
    obtain ⟨hbyte, hword⟩ := Cursor.reads_operand i o hb
    have hsplit := i.splitByte_firstByte o.mode
    refine ⟨_, _, _, _, hbyte, hword, rfl, by rw [hsplit], ?_⟩
    rw [hsplit, Mode.ofByte_number, o.ofPayload_payload]
  · intro c c₁ c₂ byte payload hbyte hword m o
    exact ⟨Cursor.extract_of_reads hbyte hword, fun i => i.bytes_ofPayload payload⟩
  · intro limits lines before after line a i text ha hl hs hi
    exact operand_at ha hl hs hi

/-- An offset that is one too large becomes the least one, and of the payload of a register three
bytes are lost. -/
theorem operand_binary_round_trip_narrowed :
    (Operand.indexed 2 0x800000).narrowed = .indexed 2 (-0x800000) ∧
      (∃ byte c₁ payload c₂, (Cursor.mk #[7, 11, 2, 0, 0, 0x80, 9] 1).byte = .ok (byte, c₁) ∧
        c₁.word = .ok (payload, c₂) ∧ c₂.position = 6 ∧
        Operand.ofPayload (Mode.ofByte (Instruction.splitByte byte).2) payload =
          .indexed 2 (-0x800000)) ∧
      Instruction.push.firstByte 1 :: (Operand.register 0x78).bytes = [9, 0x78, 0, 0, 0] ∧
      ∃ a, assemble ⟨0, 5⟩ ["PUSH [RCX + 8388608]"] = .ok a ∧
        ∃ d, Decoded.read a.program.bytes 16 = .ok d ∧ d.operand = .indexed 2 (-0x800000) := by
  obtain ⟨-, -, hforth, hback, hassembled⟩ := operand_binary_round_trip
  have hnarrowed : (Operand.indexed 2 0x800000).narrowed = .indexed 2 (-0x800000) := by decide
  refine ⟨hnarrowed, ?_, ?_, ?_⟩
  · obtain ⟨byte, c₁, payload, c₂, hbyte, hword, hposition, -, hoperand⟩ :=
      hforth .push (.indexed 2 0x800000) #[7, 11, 2, 0, 0, 0x80, 9] [7] [9] (by decide)
    exact ⟨byte, c₁, payload, c₂, hbyte, hword, hposition, hoperand.trans hnarrowed⟩
  · obtain ⟨-, hkept⟩ := hback ⟨#[9, 0x78, 0x56, 0x34, 0x12], 0⟩ _ _ 9 0x12345678 rfl rfl
    exact hkept .push rfl
  · have ha : assemble ⟨0, 5⟩ ["PUSH [RCX + 8388608]"] =
        .ok ⟨.ofBody #[11, 2, 0, 0, 0x80], #[⟨"PUSH [RCX + 8388608]", 16, [11, 2, 0, 0, 0x80]⟩],
          #[⟨1, .wideOffset .push 0x800000⟩]⟩ := by decide +kernel
    obtain ⟨-, d, hread, -, hoperand⟩ := hassembled ⟨0, 5⟩ _ [] [] _ _ .push
      "[RCX + 8388608]".toList ha rfl (by decide +kernel) rfl
    have htext : (Instruction.push.readOperand "[RCX + 8388608]".toList).1 =
        .indexed 2 0x800000 := by decide +kernel
    rw [htext, hnarrowed] at hoperand
    exact ⟨_, ha, d, hread, hoperand⟩

end StackMachine
