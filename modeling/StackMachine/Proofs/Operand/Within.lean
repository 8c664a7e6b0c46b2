import StackMachine.Proofs.Operand.Written

namespace StackMachine

namespace Operand

/-- The characters that the reader of operands skips. -/
def blankChars : List Char :=
  [' ', '\t', '\n', '\x0c', '\r']

theorem blanks_ofChars {blanks : List Char} (h : ∀ c ∈ blanks, c ∈ blankChars) :
    Blanks (Bytes.ofChars blanks) := by
  have hall {c : Char} (hc : c ∈ blankChars) : c.toNat < 128 ∧ isBlankByte c.toUInt8 = true := by
    simp only [blankChars, List.mem_cons, List.not_mem_nil, or_false] at hc
    rcases hc with rfl | rfl | rfl | rfl | rfl <;> decide
  rw [Bytes.ofChars_ascii fun c hc => (hall (h c hc)).1]
  intro b hb
  obtain ⟨c, hc, rfl⟩ := List.mem_map.mp hb
  exact (hall (h c hc)).2

theorem sharp_notMem_digitsOf (n : Nat) : '#' ∉ Text.digitsOf n :=
  fun h => absurd (Text.isDigit_of_mem_digitsOf h) (by decide)

theorem sharp_notMem_signed (i : Int) : '#' ∉ (Text.signed i).toList := by
  rw [Text.toList_signed]
  split
  · exact List.not_mem_cons_of_ne_of_not_mem (by decide) (sharp_notMem_digitsOf _)
  · exact sharp_notMem_digitsOf _

theorem sharp_notMem_registerName (index : UInt8) : '#' ∉ (registerName index).toList := by
  by_cases h : index.toNat < namedRegisters
  · have hletters : ∀ n < namedRegisters, '#' ∉ ['R', Char.ofNat ('A'.toNat + n), 'X'] := by
      decide
    rw [toList_registerName h]
    exact hletters index.toNat h
  · rw [toList_registerName_number h]
    exact sharp_notMem_digitsOf _

/-- No comment starts before the end of what the reader takes. -/
theorem sharp_notMem_written (o : Operand) : '#' ∉ o.written := by
  cases o with
  | immediate value => exact sharp_notMem_signed _
  | memory index => simp [written, sharp_notMem_signed]
  | register index => exact sharp_notMem_registerName index
  | indexed base offset =>
    have hsign : '#' ≠ if offset.toInt < 0 then '-' else '+' := by
      split <;> decide
    simp [written, sharp_notMem_registerName, sharp_notMem_digitsOf, hsign]

/-- The text of an operand whose register has a name is read back as the operand, whatever blanks
stand in front of it and whatever stands behind it, if that does not start with a digit. The reader
takes the blanks and the text, but not the comment that the text may have at its end. -/
theorem text_read_within {o : Operand} {blanks tail : List Char} (ho : o.Named)
    (hb : ∀ c ∈ blanks, c ∈ blankChars) (ht : ∀ c ∈ tail.head?, c.isDigit = false) :
    read? (Bytes.ofChars (blanks ++ o.text.toList ++ tail)) =
        some (o, (Bytes.ofChars (blanks ++ o.written)).length) ∧
      '#' ∉ o.written ∧ (o.text.toList = o.written ∨
        ∃ c, o.text.toList = o.written ++ [' ', '#', ' ', '\'', c, '\'']) := by
  have hread := @read?_text o (Bytes.ofChars blanks) tail ho (blanks_ofChars hb) ht
  rw [← Bytes.ofChars_append, ← Bytes.ofChars_append, ← List.append_assoc] at hread
  refine ⟨hread, o.sharp_notMem_written, ?_⟩
  rw [toList_text]
  rcases o.comment_cases with hcomment | ⟨c, hcomment⟩
  · exact .inl (by rw [hcomment, List.append_nil])
  · exact .inr ⟨c, by rw [hcomment]⟩

/-- The least offset is read back from before a letter that is not ASCII, and a quote from before
more quotes. -/
theorem text_read_within_quote :
    read? (Bytes.ofString " [RZX - 2147483648]é") = some (indexed 25 (-0x80000000), 19) ∧
      read? (Bytes.ofString "\t 39 # ''''0'") = some (immediate 0x27, 4) := by
  have hnamed : (25 : UInt8).toNat < namedRegisters := by decide
  have hletter : ∀ c ∈ ['é'].head?, c.isDigit = false := by
    rintro c ⟨⟩
    rfl
  have hmark : ∀ c ∈ ['\'', '0', '\''].head?, c.isDigit = false := by
    rintro c ⟨⟩
    rfl
  have hleast := @text_read_within (indexed 25 (-0x80000000)) [' '] ['é'] hnamed
    (by simp [blankChars]) hletter
  have hquote := @text_read_within (immediate 0x27) ['\t', ' '] ['\'', '0', '\''] trivial
    (by simp [blankChars]) hmark
  have hoffset : (indexed 25 (-0x80000000)).text = "[RZX - 2147483648]" := by decide +kernel
  have hvalue : (immediate 0x27).text = "39 # '''" := by decide +kernel
  rw [hoffset] at hleast
  rw [hvalue] at hquote
  exact ⟨hleast.1, hquote.1⟩

end Operand

end StackMachine
