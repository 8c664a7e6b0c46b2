import StackMachine.Proofs.Disassembly.Walk
import StackMachine.Proofs.Operand.Written

namespace StackMachine

open Text

namespace Coded

/-- The operand that is decoded from the payload. -/
def operand (c : Coded) : Operand :=
  .ofPayload c.mode c.payload

/-- The operand, if there is one, has a register with a name and is all there is in the payload. -/
structure Writable (c : Coded) : Prop where
  named : c.instruction.argument = some .operand → c.operand.Named
  payload_eq : c.instruction.argument = some .operand → c.operand.payload = c.payload

theorem fits_operand (c : Coded) : c.operand.Fits := by
  unfold operand Operand.ofPayload
  split
  · trivial
  · trivial
  · trivial
  · exact Operand.shift_bounds c.payload

end Coded

namespace Instruction

theorem named_readOperand (i : Instruction) (text : List Char) : (i.readOperand text).1.Named := by
  unfold readOperand
  split
  · trivial
  · rename_i operand used hread
    have hnamed := Operand.named_of_read? hread
    simp only
    split
    · split <;> exact hnamed
    · exact hnamed

/-- What assembly codes for a line can be written down. -/
theorem writable_coded (i : Instruction) (labels : Labels) (text : List Char) (offset : Nat) :
    (i.coded labels text offset).Writable := by
  cases h : i.argument with
  | none => exact ⟨by simp [h], by simp [h]⟩
  | some kind =>
    cases kind with
    | operand =>
      have hcoded : (i.coded labels text offset).operand =
          .ofPayload (i.readOperand text).1.mode (i.readOperand text).1.payload := by
        simp [Coded.operand, coded, h]
      refine ⟨fun _ => ?_, fun _ => ?_⟩
      · rw [hcoded]
        exact (i.named_readOperand text).ofPayload_payload
      · rw [hcoded, Operand.payload_ofPayload_payload]
        simp [coded, h]
    | displacement => exact ⟨by simp [h], by simp [h]⟩
    | register => exact ⟨by simp [h], by simp [h]⟩

end Instruction

section Line

theorem firstWord_eq {text : List Char} (h : ∀ c ∈ text, isBlank c = false) :
    firstWord text = text := by
  have hrun : (text ++ []).takeWhile (fun c => !isBlank c) = text :=
    takeWhile_run (fun c hc => by simp [h c hc]) nofun
  rwa [List.append_nil] at hrun

theorem Instruction.mnemonic_spec (i : Instruction) :
    (∀ c ∈ i.mnemonic.toList, isBlank c = false ∧ 0x20 ≤ c.toNat ∧ c.toNat ≤ 0x7e ∧ c ≠ '#') ∧
      i.mnemonic.toList ≠ [] ∧ i.mnemonic.toList ≠ "HERE".toList := by
  have hall : i.mnemonic.toList.all (fun c => decide (isBlank c = false ∧ 0x20 ≤ c.toNat ∧
      c.toNat ≤ 0x7e ∧ c ≠ '#')) = true := by
    cases i <;> decide
  refine ⟨fun c hc => of_decide_eq_true (List.all_eq_true.mp hall c hc), ?_, ?_⟩
  · cases i <;> decide
  · cases i <;> decide

theorem Instruction.tidy_mnemonic (i : Instruction) : Tidy i.mnemonic.toList := by
  obtain ⟨hall, -, -⟩ := i.mnemonic_spec
  exact tidy_of_not_blank (fun c hc => ⟨(hall c hc).2.1, (hall c hc).2.2.1⟩)
    fun c hc => (hall c hc).1

theorem Instruction.isComment_mnemonic (i : Instruction) (rest : List Char) :
    isComment (i.mnemonic.toList ++ rest) = false := by
  obtain ⟨hall, hne, -⟩ := i.mnemonic_spec
  obtain ⟨c, cs, hcons⟩ := List.exists_cons_of_ne_nil hne
  have hc := (hall c (by simp [hcons])).2.2.2
  simp [hcons, isComment, hc]

/-- A mnemonic and what follows it make up an instruction. -/
theorem Statement.ofLine_mnemonic (i : Instruction) {rest text : List Char}
    (hr : ∀ c ∈ rest.head?, isBlank c = true) (ht : trimStart rest = text) :
    Statement.ofLine (i.mnemonic.toList ++ rest) = .instruction i text := by
  obtain ⟨hall, -, hhere⟩ := i.mnemonic_spec
  have hin : ∀ c ∈ i.mnemonic.toList, (!isBlank c) = true := fun c hc => by simp [(hall c hc).1]
  have hout : ∀ c ∈ rest.head?, (!isBlank c) = false := fun c hc => by simp [hr c hc]
  have hfirst : firstWord (i.mnemonic.toList ++ rest) = i.mnemonic.toList := takeWhile_run hin hout
  have hafter : afterWord (i.mnemonic.toList ++ rest) = text := by
    rw [afterWord, dropWhile_run hin hout, ht]
  simp only [Statement.ofLine, i.isComment_mnemonic, hfirst, hafter, hhere, String.ofList_toList,
    Instruction.ofMnemonic?_mnemonic, Bool.false_eq_true, ↓reduceIte]

theorem Statement.ofLine_argument (i : Instruction) {text : List Char} (ht : Tidy text) :
    Statement.ofLine (i.mnemonic.toList ++ ' ' :: text) = .instruction i text := by
  apply Statement.ofLine_mnemonic
  · rintro c ⟨⟩
    decide
  · have hblank : isBlank ' ' = true := by decide
    rw [trimStart, List.dropWhile_cons, if_pos hblank]
    exact trimStart_eq ht.head_not_blank

/-- A line of a mnemonic and an argument is tidy if the argument is. -/
theorem Instruction.tidy_argument (i : Instruction) {text : List Char} (ht : Tidy text)
    (hne : text ≠ []) : Tidy (i.mnemonic.toList ++ ' ' :: text) := by
  have hm := i.tidy_mnemonic
  obtain ⟨-, hnonempty, -⟩ := i.mnemonic_spec
  refine ⟨?_, ?_, ?_⟩
  · intro c hc
    rcases List.mem_append.mp hc with hc | hc
    · exact hm.printable c hc
    · rcases List.mem_cons.mp hc with rfl | hc
      · exact ⟨by decide, by decide⟩
      · exact ht.printable c hc
  · obtain ⟨first, rest, hcons⟩ := List.exists_cons_of_ne_nil hnonempty
    intro c hc
    apply hm.head_not_blank c
    simpa [hcons] using hc
  · intro c hc
    apply ht.last_not_blank c
    rwa [List.getLast?_append_of_ne_nil _ (by simp), List.getLast?_cons_of_ne_nil hne] at hc

end Line

section Argument

theorem firstWord_signed (i : Int) : firstWord (signed i).toList = (signed i).toList :=
  firstWord_eq fun _ hc => isBlank_signed hc

/-- A distance that was written is read back, whatever the labels are. -/
theorem Instruction.readTarget_signed (i : Instruction) (labels : Labels) (value : Int32)
    (next : Nat) : i.readTarget labels (signed value.toInt).toList next = (value, []) := by
  simp only [readTarget, firstWord_signed, int32?_signed]

/-- A register is written by its name or as the number that it is. -/
theorem registerText_cases (value : Int32) :
    (∃ index : UInt8, index.toNat < namedRegisters ∧ index.toUInt32.toInt32 = value ∧
      Decoded.registerText value = registerName index) ∨
      Decoded.registerText value = signed value.toInt := by
  unfold Decoded.registerText
  split
  · rename_i hv
    have hlow : 0 ≤ value.toInt := Int32.le_iff_toInt_le.mp hv.1
    have hhigh : value.toInt < 256 := Int32.lt_iff_toInt_lt.mp hv.2
    have hindex : (UInt8.ofNat value.toInt.toNat).toNat = value.toInt.toNat :=
      UInt8.toNat_ofNat_of_lt' (by simp only [UInt8.size]; omega)
    by_cases hnamed : value.toInt.toNat < namedRegisters
    · refine .inl ⟨UInt8.ofNat value.toInt.toNat, by rwa [hindex], ?_, rfl⟩
      rw [← UInt32.ofNat_uInt8ToNat, UInt32.toInt32_ofNat', hindex, ← Int32.ofInt_eq_ofNat,
        Int.toNat_of_nonneg hlow, Int32.ofInt_toInt]
    · right
      have hneg : ¬ value.toInt < 0 := by omega
      have habs : value.toInt.natAbs = value.toInt.toNat := by omega
      rw [registerName, hindex, if_neg hnamed, signed, if_neg hneg, habs]
  · exact .inr rfl

theorem int32?_registerName {index : UInt8} (h : index.toNat < namedRegisters) :
    int32? (registerName index).toList = none := by
  rw [toList_registerName h]
  rfl

theorem Instruction.readRegister_registerText (i : Instruction) (value : Int32) :
    i.readRegister (Decoded.registerText value).toList = (value, []) := by
  rcases registerText_cases value with ⟨index, hindex, hvalue, htext⟩ | htext
  · have hword : firstWord (registerName index).toList = (registerName index).toList :=
      firstWord_eq fun _ hc => isBlank_registerName hc
    have hread : Operand.read? (Bytes.ofChars (registerName index).toList) =
        some (.register index, (Bytes.ofChars (registerName index).toList).length) := by
      have hbytes : Bytes.ofChars (registerName index).toList = Operand.nameBytes index :=
        Operand.ofChars_written (o := .register index) hindex
      rw [hbytes]
      have hname := @Operand.read?_register [] [] index hindex nofun
      rwa [List.nil_append, List.append_nil] at hname
    simp only [htext, readRegister, hword, int32?_registerName hindex, hread, hvalue, ↓reduceIte]
  · simp only [htext, readRegister, firstWord_signed, int32?_signed]

theorem tidy_registerText (value : Int32) :
    Tidy (Decoded.registerText value).toList ∧ (Decoded.registerText value).toList ≠ [] := by
  rcases registerText_cases value with ⟨index, hindex, -, htext⟩ | htext
  · rw [htext]
    refine ⟨tidy_of_not_blank (fun _ hc => Operand.printable_registerName hc)
      fun _ hc => isBlank_registerName hc, ?_⟩
    rw [toList_registerName hindex]
    simp
  · rw [htext]
    exact ⟨tidy_signed _, signed_ne_nil _⟩

end Argument

namespace Coded

/-- A line of source stands for an instruction, whatever the labels are and wherever it stands, and
there is nothing to remark on it. -/
structure WrittenAs (c : Coded) (line : List Char) : Prop where
  tidy : Tidy line
  encoded : ∃ text, Statement.ofLine line = .instruction c.instruction text ∧
    ∀ labels offset, c.instruction.encode labels text offset = (c.bytes, [])

theorem writtenAs_argument {c : Coded} {line text : List Char}
    (hline : line = c.instruction.mnemonic.toList ++ ' ' :: text) (ht : Tidy text)
    (hne : text ≠ [])
    (hencode : ∀ labels offset, c.instruction.encode labels text offset = (c.bytes, [])) :
    c.WrittenAs line := by
  rw [hline]
  exact ⟨c.instruction.tidy_argument ht hne, text, Statement.ofLine_argument _ ht, hencode⟩

/-- The text of a proper instruction that can be written down stands for it. -/
theorem writtenAs_text {c : Coded} (hp : c.Proper) (hw : c.Writable) :
    c.WrittenAs c.text.toList := by
  cases ha : c.instruction.argument with
  | none =>
    have hmode := hp.mode_eq (by simp [ha])
    have hline : c.text.toList = c.instruction.mnemonic.toList ++ [] := by
      simp [text, Decoded.text, decoded, ha]
    rw [hline]
    refine ⟨?_, [], Statement.ofLine_mnemonic _ (by simp) rfl, ?_⟩
    · rw [List.append_nil]
      exact c.instruction.tidy_mnemonic
    · intro labels offset
      simp [Instruction.encode, bytes, ha, hmode, Mode.number, isComment]
  | some kind =>
    cases kind with
    | operand =>
      have hnamed := hw.named ha
      have hmode : c.operand.mode = c.mode := Operand.mode_ofPayload c.mode c.payload
      apply @writtenAs_argument c _ c.operand.text.toList
      · simp [text, Decoded.text, decoded, ha, Decoded.operand, operand]
      · exact c.operand.tidy_text
      · exact c.operand.text_ne_nil
      · intro labels offset
        have hread := c.instruction.readOperand_text hnamed c.fits_operand
        simp [Instruction.encode, bytes, ha, hread, hmode, Operand.bytes, hw.payload_eq ha]
    | displacement =>
      have hmode := hp.mode_eq (by simp [ha])
      apply @writtenAs_argument c _ (signed c.payload.toInt).toList
      · simp [text, Decoded.text, decoded, ha]
      · exact tidy_signed _
      · exact signed_ne_nil _
      · intro labels offset
        simp [Instruction.encode, bytes, ha, hmode, Mode.number, Instruction.readTarget_signed]
    | register =>
      have hmode := hp.mode_eq (by simp [ha])
      obtain ⟨htidy, hne⟩ := tidy_registerText c.payload
      apply @writtenAs_argument c _ (Decoded.registerText c.payload).toList
      · simp [text, Decoded.text, decoded, ha]
      · exact htidy
      · exact hne
      · intro labels offset
        simp [Instruction.encode, bytes, ha, hmode, Mode.number,
          Instruction.readRegister_registerText]

end Coded

end StackMachine
