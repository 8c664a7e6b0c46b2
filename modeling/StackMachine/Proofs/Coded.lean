import StackMachine.Assembly
import StackMachine.Disassembly
import StackMachine.Proofs.Bytes

namespace StackMachine

theorem Instruction.splitByte_firstByte (i : Instruction) (m : Mode) :
    splitByte (i.firstByte m.number) = (i.opcode, m.number) := by
  cases i <;> cases m <;> rfl

/-- An opcode is the place of its instruction. -/
theorem Instruction.opcode_of_ofOpcode? {opcode : UInt8} {i : Instruction}
    (h : ofOpcode? opcode = some i) : i.opcode = opcode := by
  have hall : ∀ n : Fin all.length, (all[n]).opcode = UInt8.ofNat n := by decide
  obtain ⟨hlt, hi⟩ := List.getElem?_eq_some_iff.mp h
  rw [← hi]
  exact (hall ⟨opcode.toNat, hlt⟩).trans UInt8.ofNat_toNat

/-- A first byte that was split is put together again. -/
theorem Instruction.firstByte_splitByte {byte : UInt8} {i : Instruction}
    (h : ofOpcode? (splitByte byte).1 = some i) :
    i.firstByte (Mode.ofByte (splitByte byte).2).number = byte := by
  have hall : ∀ n < 256, ((UInt8.ofNat n >>> 2) <<< 2) |||
      ((Mode.ofByte (UInt8.ofNat n &&& 3)).number &&& 3) = UInt8.ofNat n := by
    decide +kernel
  have hbyte := hall byte.toNat byte.toNat_lt
  rw [UInt8.ofNat_toNat] at hbyte
  rw [firstByte, opcode_of_ofOpcode? h]
  exact hbyte

/-- An instruction with what its bytes say. -/
structure Coded where
  instruction : Instruction
  mode : Mode
  payload : Int32
  deriving Repr, DecidableEq

namespace Coded

def bytes (c : Coded) : List UInt8 :=
  c.instruction.firstByte c.mode.number ::
    if c.instruction.argument.isSome then Bytes.ofWord c.payload.toUInt32 else []

/-- What the instruction has no use for is as decoding leaves it. -/
structure Proper (c : Coded) : Prop where
  mode_eq : c.instruction.argument ≠ some .operand → c.mode = .immediate
  payload_eq : c.instruction.argument = none → c.payload = 0

@[simp] theorem length_bytes (c : Coded) : c.bytes.length = c.instruction.size := by
  cases h : c.instruction.argument <;>
    simp [bytes, Instruction.size, Instruction.argumentSize, h]

/-- What is decoded where the instruction stands. -/
def decoded (c : Coded) (offset : Nat) : Decoded :=
  ⟨offset, c.instruction, c.mode, c.payload, offset + c.instruction.size⟩

end Coded

/-- The word that some bytes start with. -/
def Bytes.word? : List UInt8 → Option UInt32
  | a :: b :: c :: d :: _ => some (word a b c d)
  | _ => none

theorem Bytes.word?_spec (bytes : List UInt8) :
    (∃ w rest, word? bytes = some w ∧ bytes = ofWord w ++ rest) ∨
      word? bytes = none ∧ bytes.length < 4 := by
  match bytes with
  | a :: b :: c :: d :: rest => exact .inl ⟨word a b c d, rest, rfl, by rw [ofWord_word]; rfl⟩
  | [] | [_] | [_, _] | [_, _, _] => exact .inr ⟨rfl, by simp⟩

theorem Bytes.word?_ofWord (w : UInt32) (after : List UInt8) :
    word? (ofWord w ++ after) = some w :=
  congrArg some (word_ofWord w)

namespace Cursor

variable {bytes : Array UInt8} {before after : List UInt8}

/-- The bytes that stand at a cursor are taken. -/
theorem take_append {piece : List UInt8} (hb : bytes.toList = before ++ piece ++ after) :
    (Cursor.mk bytes before.length).take piece.length =
      .ok (piece.toArray, ⟨bytes, before.length + piece.length⟩) := by
  have hsize : bytes.size = before.length + piece.length + after.length := by
    simp [← Array.length_toList, hb, Nat.add_assoc]
  have hfits : before.length + piece.length ≤ bytes.size := by omega
  have hpiece : bytes.extract before.length (before.length + piece.length) = piece.toArray := by
    apply Array.toList_inj.mp
    simp [Array.toList_extract, hb, List.extract_eq_take_drop]
  simp only [take, hfits, hpiece, ↓reduceIte]

theorem byte_append {b : UInt8} (hb : bytes.toList = before ++ [b] ++ after) :
    (Cursor.mk bytes before.length).byte = .ok (b, ⟨bytes, before.length + 1⟩) := by
  have htake := take_append hb
  simp only [List.length_cons, List.length_nil, Nat.zero_add] at htake
  simp [byte, htake, bind, Except.bind]

theorem word_append {w : UInt32} (hb : bytes.toList = before ++ Bytes.ofWord w ++ after) :
    (Cursor.mk bytes before.length).word = .ok (w.toInt32, ⟨bytes, before.length + 4⟩) := by
  have htake := take_append hb
  rw [Bytes.length_ofWord] at htake
  simp only [word, htake, bind, Except.bind]
  simp only [Bytes.ofWord, Array.getD_eq_getD_getElem?, List.getElem?_toArray,
    List.getElem?_cons_zero, List.getElem?_cons_succ, Option.getD_some, Bytes.word_ofWord]

/-- Where too few bytes are left, none are taken. -/
theorem take_short {count : Nat} (hb : bytes.toList = before ++ after)
    (hs : after.length < count) : (Cursor.mk bytes before.length).take count =
      .error (.unexpectedEnd before.length count after.length) := by
  have hsize : bytes.size = before.length + after.length := by
    rw [← Array.length_toList, hb, List.length_append]
  have hout : ¬ before.length + count ≤ bytes.size := by omega
  have hleft : bytes.size - before.length = after.length := by omega
  simp only [take, hout, hleft, ↓reduceIte]

/-- A word takes the next four bytes, if there are as many. -/
theorem word_rest (hb : bytes.toList = before ++ after) :
    (Cursor.mk bytes before.length).word =
      match Bytes.word? after with
      | some w => .ok (w.toInt32, ⟨bytes, before.length + 4⟩)
      | none => .error (.unexpectedEnd before.length 4 after.length) := by
  rcases Bytes.word?_spec after with ⟨w, rest, hw, hafter⟩ | ⟨hw, hshort⟩
  · rw [hafter, ← List.append_assoc] at hb
    rw [word_append hb, hw]
  · simp only [word, take_short hb hshort, hw, bind, Except.bind]

end Cursor

/-- What the bytes from an offset on say about the instruction that starts there. -/
def Decoded.ofBytes (offset : Nat) : List UInt8 → Except Fault Decoded
  | [] => .error (.unexpectedEnd offset 1 0)
  | byte :: rest =>
    let mode := Mode.ofByte (Instruction.splitByte byte).2
    match Instruction.ofOpcode? (Instruction.splitByte byte).1 with
    | none => .error (.invalidInstruction byte offset)
    | some i =>
      if mode ≠ .immediate ∧ i.argument ≠ some .operand then .error (.invalidMode i mode offset)
      else if i.argument.isSome then
        match Bytes.word? rest with
        | some w => .ok ⟨offset, i, mode, w.toInt32, offset + 5⟩
        | none => .error (.unexpectedEnd (offset + 1) 4 rest.length)
      else .ok ⟨offset, i, mode, 0, offset + 1⟩

/-- What is decoded depends on the bytes from there on only. -/
theorem Decoded.read_append {bytes : Array UInt8} {before rest : List UInt8}
    (hb : bytes.toList = before ++ rest) :
    Decoded.read bytes before.length = ofBytes before.length rest := by
  cases rest with
  | nil =>
    have hshort : (Cursor.mk bytes before.length).take 1 =
        .error (.unexpectedEnd before.length 1 0) := Cursor.take_short hb Nat.one_pos
    simp only [Decoded.read, Opening.read, Cursor.byte, hshort, bind, Except.bind]
    rfl
  | cons byte rest =>
    have hsplit : bytes.toList = before ++ [byte] ++ rest := by simp [hb]
    have hfirst := Cursor.byte_append hsplit
    have hword := Cursor.word_rest hsplit
    rw [List.length_append, List.length_singleton] at hword
    simp only [Decoded.read, Opening.read, hfirst, bind, Except.bind, ofBytes]
    cases Instruction.ofOpcode? (Instruction.splitByte byte).1 with
    | none => rfl
    | some i =>
      simp only
      by_cases hmode : Mode.ofByte (Instruction.splitByte byte).2 ≠ .immediate ∧
          i.argument ≠ some .operand
      · rw [if_pos hmode, if_pos hmode]
      · rw [if_neg hmode, if_neg hmode]
        simp only [Opening.finish, hword, bind, Except.bind]
        cases Bytes.word? rest <;> rfl

theorem Decoded.read_eq {bytes : Array UInt8} {offset : Nat} (h : offset ≤ bytes.size) :
    Decoded.read bytes offset = ofBytes offset (bytes.toList.drop offset) := by
  have hlength : (bytes.toList.take offset).length = offset := by
    rw [List.length_take, Array.length_toList, Nat.min_eq_left h]
  have hread := read_append (List.take_append_drop offset bytes.toList).symm
  rwa [hlength] at hread

/-- The bytes of a proper instruction are decoded as it, whatever stands behind them. -/
theorem Coded.Proper.ofBytes {c : Coded} (h : c.Proper) (offset : Nat) (after : List UInt8) :
    Decoded.ofBytes offset (c.bytes ++ after) = .ok (c.decoded offset) := by
  have hmode : ¬ (c.mode ≠ .immediate ∧ c.instruction.argument ≠ some .operand) := by
    rintro ⟨hm, ha⟩
    exact hm (h.mode_eq ha)
  rw [Coded.bytes, List.cons_append]
  simp only [Decoded.ofBytes, Instruction.splitByte_firstByte, Instruction.ofOpcode?_opcode,
    Mode.ofByte_number, if_neg hmode]
  cases ha : c.instruction.argument with
  | none => simp [decoded, Instruction.size, ha, h.payload_eq ha]
  | some kind =>
    simp [Bytes.word?_ofWord, decoded, Instruction.size, Instruction.argumentSize, ha]

/-- Where the bytes of a proper instruction stand, it is decoded. -/
theorem Coded.Proper.read {c : Coded} (h : c.Proper) {bytes : Array UInt8}
    {before after : List UInt8} (hb : bytes.toList = before ++ c.bytes ++ after) :
    Decoded.read bytes before.length = .ok (c.decoded before.length) := by
  rw [List.append_assoc] at hb
  rw [Decoded.read_append hb, h.ofBytes]

/-- What bytes are decoded as is a proper instruction that they start with the bytes of. -/
theorem Coded.of_ofBytes {offset : Nat} {rest : List UInt8} {d : Decoded}
    (h : Decoded.ofBytes offset rest = .ok d) :
    ∃ (c : Coded) (after : List UInt8), c.Proper ∧ d = c.decoded offset ∧
      rest = c.bytes ++ after := by
  cases rest with
  | nil => cases h
  | cons byte rest =>
    cases hi : Instruction.ofOpcode? (Instruction.splitByte byte).1 with
    | none => simp [Decoded.ofBytes, hi] at h
    | some i =>
      have hbyte := Instruction.firstByte_splitByte hi
      simp only [Decoded.ofBytes, hi] at h
      split at h
      · cases h
      · rename_i hmode
        have hproper : i.argument ≠ some .operand →
            Mode.ofByte (Instruction.splitByte byte).2 = .immediate := by
          intro ha
          by_contra hm
          exact hmode ⟨hm, ha⟩
        cases ha : i.argument with
        | none =>
          simp only [ha, Option.isSome_none, Bool.false_eq_true, ↓reduceIte,
            Except.ok.injEq] at h
          refine ⟨⟨i, Mode.ofByte (Instruction.splitByte byte).2, 0⟩, rest,
            ⟨hproper, fun _ => rfl⟩, ?_, ?_⟩
          · rw [← h]
            simp [decoded, Instruction.size, ha]
          · simp [Coded.bytes, hbyte, ha]
        | some kind =>
          simp only [ha, Option.isSome_some, ↓reduceIte] at h
          rcases Bytes.word?_spec rest with ⟨w, after, hw, hrest⟩ | ⟨hw, -⟩
          · rw [hw] at h
            refine ⟨⟨i, Mode.ofByte (Instruction.splitByte byte).2, w.toInt32⟩, after,
              ⟨hproper, by simp [ha]⟩, ?_, ?_⟩
            · rw [← Except.ok.inj h]
              simp [decoded, Instruction.size, Instruction.argumentSize, ha]
            · simp [Coded.bytes, hbyte, ha, hrest]
          · rw [hw] at h
            cases h

namespace Cursor

/-- What is taken at a cursor stands there. -/
theorem take_eq {c c' : Cursor} {count : Nat} {piece : Array UInt8}
    (h : c.take count = .ok (piece, c')) :
    c.bytes.toList.drop c.position = piece.toList ++ c'.bytes.toList.drop c'.position ∧
      piece.size = count ∧ c' = ⟨c.bytes, c.position + count⟩ := by
  unfold take at h
  split at h
  · rename_i hle
    obtain ⟨rfl, rfl⟩ := Prod.mk.inj (Except.ok.inj h)
    refine ⟨?_, ?_, rfl⟩
    · have hcount : c.position + count - c.position = count := by omega
      rw [Array.toList_extract, List.extract_eq_take_drop, hcount, ← List.drop_drop,
        List.take_append_drop]
    · simp only [Array.size_extract]
      omega
  · cases h

theorem byte_eq {c c' : Cursor} {b : UInt8} (h : c.byte = .ok (b, c')) :
    c.bytes.toList.drop c.position = b :: c'.bytes.toList.drop c'.position ∧
      c' = ⟨c.bytes, c.position + 1⟩ := by
  cases ht : c.take 1 with
  | error fault => simp [byte, ht, bind, Except.bind] at h
  | ok r =>
    obtain ⟨piece, c₁⟩ := r
    obtain ⟨hdrop, hsize, hmoved⟩ := take_eq ht
    obtain ⟨x, hx⟩ := Array.size_eq_one_iff.mp hsize
    simp only [byte, ht, bind, Except.bind, Except.ok.injEq, Prod.mk.injEq] at h
    obtain ⟨rfl, rfl⟩ := h
    rw [hdrop, hx]
    exact ⟨rfl, hmoved⟩

theorem word_eq {c c' : Cursor} {w : Int32} (h : c.word = .ok (w, c')) :
    c.bytes.toList.drop c.position =
        Bytes.ofWord w.toUInt32 ++ c'.bytes.toList.drop c'.position ∧
      c' = ⟨c.bytes, c.position + 4⟩ := by
  cases ht : c.take 4 with
  | error fault => simp [word, ht, bind, Except.bind] at h
  | ok r =>
    obtain ⟨piece, c₁⟩ := r
    obtain ⟨hdrop, hsize, hmoved⟩ := take_eq ht
    simp only [word, ht, bind, Except.bind, Except.ok.injEq, Prod.mk.injEq] at h
    obtain ⟨rfl, rfl⟩ := h
    rw [hdrop, Bytes.toList_of_size hsize, UInt32.toUInt32_toInt32, Bytes.ofWord_word]
    exact ⟨rfl, hmoved⟩

end Cursor

/-- What is decoded at an offset is a proper instruction whose bytes stand there. -/
theorem Coded.of_read {bytes : Array UInt8} {offset : Nat} {d : Decoded}
    (h : Decoded.read bytes offset = .ok d) :
    ∃ c : Coded, c.Proper ∧ d = c.decoded offset ∧
      bytes.toList.drop offset = c.bytes ++ bytes.toList.drop d.next := by
  obtain ⟨hlt, hle⟩ := Decoded.lt_next_of_read h
  rw [Decoded.read_eq (by omega)] at h
  obtain ⟨c, after, hproper, rfl, hrest⟩ := Coded.of_ofBytes h
  refine ⟨c, hproper, rfl, ?_⟩
  rw [Coded.decoded, ← List.drop_drop, hrest, ← c.length_bytes, List.drop_left]

namespace Instruction

/-- What assembly codes for an instruction with an operand text at an offset. -/
def coded (i : Instruction) (labels : Labels) (text : List Char) (offset : Nat) : Coded :=
  match i.argument with
  | none => ⟨i, .immediate, 0⟩
  | some .operand => ⟨i, (i.readOperand text).1.mode, (i.readOperand text).1.payload⟩
  | some .displacement => ⟨i, .immediate, (i.readTarget labels text (offset + i.size)).1⟩
  | some .register => ⟨i, .immediate, (i.readRegister text).1⟩

variable (i : Instruction) (labels : Labels) (text : List Char) (offset : Nat)

@[simp] theorem instruction_coded : (i.coded labels text offset).instruction = i := by
  unfold coded
  split <;> rfl

theorem bytes_coded : (i.coded labels text offset).bytes = (i.encode labels text offset).1 := by
  cases h : i.argument with
  | none => simp [coded, encode, Coded.bytes, h, Mode.number]
  | some kind =>
    cases kind <;> simp [coded, encode, Coded.bytes, h, Mode.number, Operand.bytes]

theorem proper_coded : (i.coded labels text offset).Proper := by
  cases h : i.argument with
  | none => exact ⟨by simp [coded, h], by simp [coded, h]⟩
  | some kind => cases kind <;> exact ⟨by simp [coded, h], by simp [coded, h]⟩

end Instruction

end StackMachine
