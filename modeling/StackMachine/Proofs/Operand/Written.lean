import StackMachine.Proofs.Operand.Codec
import StackMachine.Proofs.Text.Tidy
import StackMachine.Statement

namespace StackMachine

open Text

/-- The letter in the name of a register. -/
def registerLetter (index : UInt8) : Char :=
  Char.ofNat ('A'.toNat + index.toNat)

theorem toList_registerName {index : UInt8} (h : index.toNat < namedRegisters) :
    (registerName index).toList = ['R', registerLetter index, 'X'] := by
  rw [registerName, if_pos h, String.toList_ofList, registerLetter]

theorem registerLetter_spec {index : UInt8} (h : index.toNat < namedRegisters) :
    (registerLetter index).toUInt8 = 'A'.toUInt8 + index ∧ IsPrintable (registerLetter index) ∧
      isBlank (registerLetter index) = false := by
  have hall : ∀ n < namedRegisters,
      (Char.ofNat ('A'.toNat + n)).toUInt8 = 'A'.toUInt8 + UInt8.ofNat n ∧
        (0x20 ≤ (Char.ofNat ('A'.toNat + n)).toNat ∧ (Char.ofNat ('A'.toNat + n)).toNat ≤ 0x7e) ∧
        isBlank (Char.ofNat ('A'.toNat + n)) = false := by
    decide
  have hletter := hall index.toNat h
  rwa [UInt8.ofNat_toNat] at hletter

theorem printable_digitsOf {n : Nat} {c : Char} (h : c ∈ digitsOf n) : IsPrintable c := by
  obtain ⟨hlow, hhigh⟩ := Operand.bounds_of_isDigit (isDigit_of_mem_digitsOf h)
  exact ⟨by omega, by omega⟩

theorem isBlank_digitsOf {n : Nat} {c : Char} (h : c ∈ digitsOf n) : isBlank c = false := by
  obtain ⟨hlow, hhigh⟩ := Operand.bounds_of_isDigit (isDigit_of_mem_digitsOf h)
  have hall : ∀ n ≤ 57, 48 ≤ n → inRanges blankRanges n = false := by decide
  exact hall c.toNat hhigh hlow

theorem isBlank_signed {i : Int} {c : Char} (h : c ∈ (signed i).toList) : isBlank c = false := by
  rw [toList_signed] at h
  split at h
  · rcases List.mem_cons.mp h with rfl | h
    · decide
    · exact isBlank_digitsOf h
  · exact isBlank_digitsOf h

theorem signed_ne_nil (i : Int) : (signed i).toList ≠ [] := by
  rw [toList_signed]
  split
  · simp
  · exact digitsOf_ne_nil _

theorem toList_registerName_number {index : UInt8} (h : ¬ index.toNat < namedRegisters) :
    (registerName index).toList = digitsOf index.toNat := by
  rw [registerName, if_neg h, toList_decimal]

theorem isBlank_registerName {index : UInt8} {c : Char} (hc : c ∈ (registerName index).toList) :
    isBlank c = false := by
  by_cases h : index.toNat < namedRegisters
  · rw [toList_registerName h] at hc
    simp only [List.mem_cons, List.not_mem_nil, or_false] at hc
    rcases hc with rfl | rfl | rfl
    · decide
    · exact (registerLetter_spec h).2.2
    · decide
  · rw [toList_registerName_number h] at hc
    exact isBlank_digitsOf hc

theorem printable_signed {i : Int} {c : Char} (h : c ∈ (signed i).toList) : IsPrintable c := by
  rw [toList_signed] at h
  split at h
  · rcases List.mem_cons.mp h with rfl | h
    · exact ⟨by decide, by decide⟩
    · exact printable_digitsOf h
  · exact printable_digitsOf h

theorem tidy_signed (i : Int) : Tidy (signed i).toList :=
  tidy_of_not_blank (fun _ hc => printable_signed hc) fun _ hc => isBlank_signed hc

namespace Operand

/-- What the reader takes of the text of an operand. -/
def written : Operand → List Char
  | immediate value => (signed value.toInt).toList
  | memory index => '[' :: (signed index.toInt).toList ++ [']']
  | register index => (registerName index).toList
  | indexed base offset =>
    '[' :: (registerName base).toList ++ [' ', if offset.toInt < 0 then '-' else '+', ' '] ++
      digitsOf offset.toInt.natAbs ++ [']']

def comment : Operand → List Char
  | immediate value =>
    match printable? value with
    | some c => [' ', '#', ' ', '\'', c, '\'']
    | none => []
  | _ => []

theorem toList_text (o : Operand) : o.text.toList = o.written ++ o.comment := by
  cases o with
  | immediate value =>
    simp only [text, written, comment]
    cases printable? value <;> simp
  | memory index => simp [text, written, comment]
  | register index => simp [text, written, comment]
  | indexed base offset =>
    have hneg : offset < 0 ↔ offset.toInt < 0 := by
      rw [Int32.lt_iff_toInt_lt]
      rfl
    simp only [text, written, comment, hneg]
    split <;> simp

theorem printable_printable? {value : Int32} {c : Char} (h : printable? value = some c) :
    IsPrintable c := by
  unfold printable? at h
  split at h
  · rename_i hv
    cases h
    have hall : ∀ n ≤ 0x7e, 0x20 ≤ n → IsPrintable (Char.ofNat n) := by
      decide
    have hlow := Int32.le_iff_toInt_le.mp hv.1
    have hhigh := Int32.le_iff_toInt_le.mp hv.2
    have hspace : (0x20 : Int32).toInt = 0x20 := by decide
    have htilde : (0x7e : Int32).toInt = 0x7e := by decide
    exact hall value.toInt.toNat (by omega) (by omega)
  · cases h

theorem printable_of_mem {c : Char} (h : c ∈ "[] +-R X#'".toList) : IsPrintable c := by
  have hall : "[] +-R X#'".toList.all (fun c => decide (IsPrintable c)) = true := by decide
  exact of_decide_eq_true (List.all_eq_true.mp hall c h)

theorem printable_registerName {index : UInt8} {c : Char}
    (hc : c ∈ (registerName index).toList) : IsPrintable c := by
  by_cases h : index.toNat < namedRegisters
  · rw [toList_registerName h] at hc
    simp only [List.mem_cons, List.not_mem_nil, or_false] at hc
    rcases hc with rfl | rfl | rfl
    · exact printable_of_mem (by decide)
    · exact (registerLetter_spec h).2.1
    · exact printable_of_mem (by decide)
  · rw [toList_registerName_number h] at hc
    exact printable_digitsOf hc

theorem printable_written {o : Operand} {c : Char} (hc : c ∈ o.written) : IsPrintable c := by
  cases o with
  | immediate value => exact printable_signed hc
  | memory index =>
    simp only [written, List.cons_append, List.mem_cons, List.mem_append, List.not_mem_nil,
      or_false] at hc
    rcases hc with rfl | hc | rfl
    · exact printable_of_mem (by decide)
    · exact printable_signed hc
    · exact printable_of_mem (by decide)
  | register index => exact printable_registerName hc
  | indexed base offset =>
    simp only [written, List.cons_append, List.mem_cons, List.mem_append, List.not_mem_nil,
      or_false] at hc
    rcases hc with rfl | ((hc | rfl | rfl | rfl) | hc) | rfl
    · exact printable_of_mem (by decide)
    · exact printable_registerName hc
    · exact printable_of_mem (by decide)
    · split <;> exact printable_of_mem (by decide)
    · exact printable_of_mem (by decide)
    · exact printable_digitsOf hc
    · exact printable_of_mem (by decide)

theorem printable_comment {o : Operand} {c : Char} (hc : c ∈ o.comment) : IsPrintable c := by
  cases o with
  | immediate value =>
    simp only [comment] at hc
    cases hp : printable? value with
    | none => simp [hp] at hc
    | some shown =>
      simp only [hp, List.mem_cons, List.not_mem_nil, or_false] at hc
      rcases hc with rfl | rfl | rfl | rfl | rfl | rfl
      · exact printable_of_mem (by decide)
      · exact printable_of_mem (by decide)
      · exact printable_of_mem (by decide)
      · exact printable_of_mem (by decide)
      · exact printable_printable? hp
      · exact printable_of_mem (by decide)
  | _ => cases hc

theorem ofChars_written {o : Operand} (h : o.Named) : Bytes.ofChars o.written = o.writtenBytes := by
  rw [Bytes.ofChars_ascii]
  · cases o with
    | immediate value => rfl
    | memory index => simp [written, writtenBytes, signedBytes]
    | register index =>
      simp only [written, writtenBytes, nameBytes, toList_registerName h, List.map_cons,
        List.map_nil, (registerLetter_spec h).1]
    | indexed base offset =>
      have hsign : (if offset.toInt < 0 then '-' else '+').toUInt8 =
          if offset.toInt < 0 then '-'.toUInt8 else '+'.toUInt8 := by
        split <;> rfl
      simp only [written, writtenBytes, nameBytes, toList_registerName h, digitBytes,
        List.map_cons, List.map_nil, List.map_append, (registerLetter_spec h).1, hsign]
  · intro c hc
    have hprintable := (printable_written hc).2
    omega

theorem last_not_blank {text : List Char} {c : Char} (h : isBlank c = false) :
    ∀ c' ∈ (text ++ [c]).getLast?, isBlank c' = false := by
  intro c' hc
  rw [List.getLast?_concat, Option.mem_some_iff] at hc
  rw [← hc]
  exact h

theorem tidy_text (o : Operand) : Tidy o.text.toList := by
  have hprintable : ∀ c ∈ o.text.toList, IsPrintable c := by
    intro c hc
    rw [toList_text] at hc
    rcases List.mem_append.mp hc with hc | hc
    · exact printable_written hc
    · exact printable_comment hc
  rw [toList_text] at hprintable ⊢
  cases o with
  | immediate value =>
    obtain ⟨first, rest, hcons⟩ := List.exists_cons_of_ne_nil (signed_ne_nil value.toInt)
    have hfirst : isBlank first = false := isBlank_signed (i := value.toInt) (by simp [hcons])
    refine ⟨hprintable, ?_, ?_⟩
    · rw [written, hcons]
      rintro c ⟨⟩
      exact hfirst
    · simp only [comment]
      cases printable? value with
      | none =>
        intro c hc
        exact isBlank_signed (List.mem_of_getLast? (by simpa [written] using hc))
      | some shown =>
        intro c hc
        simp at hc
        rw [← hc]
        decide
  | memory index =>
    rw [show comment (memory index) = [] from rfl, List.append_nil] at hprintable ⊢
    refine ⟨hprintable, ?_, ?_⟩
    · rintro c ⟨⟩
      decide
    · exact last_not_blank (by decide)
  | register index =>
    apply tidy_of_not_blank hprintable
    intro c hc
    exact @isBlank_registerName index c (by simpa [written, comment] using hc)
  | indexed base offset =>
    rw [show comment (indexed base offset) = [] from rfl, List.append_nil] at hprintable ⊢
    refine ⟨hprintable, ?_, ?_⟩
    · rintro c ⟨⟩
      decide
    · exact last_not_blank (by decide)

theorem text_ne_nil (o : Operand) : o.text.toList ≠ [] := by
  rw [toList_text]
  cases o with
  | immediate value => exact List.append_ne_nil_of_left_ne_nil (signed_ne_nil value.toInt) _
  | memory index => simp [written]
  | register index =>
    simp only [written, registerName]
    split
    · simp
    · simp [digitsOf_ne_nil]
  | indexed base offset => simp [written]

/-- An offset, if there is one, fits in 24 bits. -/
def Fits : Operand → Prop
  | indexed _ offset => leastOffset ≤ offset ∧ offset ≤ greatestOffset
  | _ => True

/-- No number goes on with a character that is not a digit. -/
theorem endsNumber_ofChars {text : List Char} (h : ∀ c ∈ text.head?, c.isDigit = false) :
    EndsNumber (Bytes.ofChars text) := by
  cases text with
  | nil => exact nofun
  | cons c rest =>
    intro b hb
    by_contra hdigit
    have hbounds : 48 ≤ b.toNat ∧ b.toNat ≤ 57 := by
      simpa [isDigitByte, UInt8.le_iff_toNat_le] using hdigit
    have hmem : b ∈ String.utf8EncodeChar c := by
      rw [Bytes.ofChars, List.flatMap_cons,
        List.head?_append_of_ne_nil _ String.utf8EncodeChar_ne_nil] at hb
      exact List.mem_of_mem_head? hb
    have hc := Bytes.toNat_of_mem_utf8EncodeChar (by omega) hmem
    have hc' : c.isDigit = true := by
      simpa [Char.isDigit, UInt32.le_iff_toNat_le, hc] using hbounds
    rw [h c rfl] at hc'
    cases hc'

theorem comment_cases (o : Operand) :
    o.comment = [] ∨ ∃ c, o.comment = [' ', '#', ' ', '\'', c, '\''] := by
  cases o with
  | immediate value =>
    simp only [comment]
    cases printable? value with
    | none => exact .inl rfl
    | some c => exact .inr ⟨c, rfl⟩
  | _ => exact .inl rfl

theorem endsNumber_comment_append (o : Operand) {tail : List Char}
    (h : ∀ c ∈ tail.head?, c.isDigit = false) : EndsNumber (Bytes.ofChars (o.comment ++ tail)) := by
  apply endsNumber_ofChars
  rcases o.comment_cases with hcomment | ⟨shown, hcomment⟩
  · rwa [hcomment, List.nil_append]
  · rw [hcomment]
    rintro c ⟨⟩
    rfl

theorem isComment_trimStart_comment (o : Operand) : isComment (trimStart o.comment) = true := by
  rcases o.comment_cases with hcomment | ⟨shown, hcomment⟩
  · rw [hcomment]
    rfl
  · rw [hcomment]
    rfl

/-- Of a text that is written for an operand the reader takes what stands before the comment. -/
theorem read?_text {o : Operand} {blanks : List UInt8} {tail : List Char} (ho : o.Named)
    (hb : Blanks blanks) (ht : ∀ c ∈ tail.head?, c.isDigit = false) :
    read? (blanks ++ Bytes.ofChars (o.text.toList ++ tail)) =
      some (o, (blanks ++ Bytes.ofChars o.written).length) := by
  rw [toList_text, List.append_assoc, Bytes.ofChars_append, ofChars_written ho, ← List.append_assoc]
  exact read?_writtenBytes ho hb (o.endsNumber_comment_append ht)

end Operand

/-- The text of an operand is read as the operand, with nothing to remark. -/
theorem Instruction.readOperand_text (i : Instruction) {o : Operand} (h : o.Named)
    (hf : o.Fits) : i.readOperand o.text.toList = (o, []) := by
  have hread : Operand.read? (Bytes.ofChars (o.written ++ o.comment)) =
      some (o, (Bytes.ofChars o.written).length) := by
    have htext := @Operand.read?_text o [] [] h nofun nofun
    rwa [List.append_nil, Operand.toList_text] at htext
  rw [Operand.toList_text]
  simp only [readOperand, hread, Bytes.dropBytes?_append, Option.getD_some,
    o.isComment_trimStart_comment, ↓reduceIte]
  cases o with
  | indexed base offset => exact if_pos hf
  | _ => rfl

end StackMachine
