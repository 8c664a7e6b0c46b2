import StackMachine.Proofs.Operand.Longest

namespace StackMachine.Operand

/-- The register, if there is one, has a name. -/
def Named : Operand → Prop
  | immediate _ => True
  | memory _ => True
  | register index => index.toNat < namedRegisters
  | indexed base _ => base.toNat < namedRegisters

/-- The bytes written for an operand, without the comment. -/
def writtenBytes : Operand → List UInt8
  | immediate value => signedBytes value
  | memory index => '['.toUInt8 :: signedBytes index ++ [']'.toUInt8]
  | register index => nameBytes index
  | indexed base offset =>
    '['.toUInt8 :: nameBytes base ++
      [' '.toUInt8, if offset.toInt < 0 then '-'.toUInt8 else '+'.toUInt8, ' '.toUInt8] ++
      digitBytes offset.toInt.natAbs ++ [']'.toUInt8]

section Forms

variable {text body rest : List UInt8} {b : UInt8}

theorem expect_ne {c : Char} (h : b ≠ c.toUInt8) : expect c (b :: body) = none := by
  simp [expect, h]

theorem registerIndex_ne (h : b ≠ 'R'.toUInt8) : registerIndex (b :: body) = none := by
  simp [registerIndex, expect_ne h, bind, Option.bind]

/-- Nothing but a sign or a digit starts a number. -/
theorem number_ne (hskip : skipBlanks text = b :: body) (hminus : b ≠ '-'.toUInt8)
    (hplus : b ≠ '+'.toUInt8) (hdigit : isDigitByte b = false) : number text = none := by
  simp [number, hskip, sign, hminus, hplus, hdigit]

theorem bracketForms_ne (hskip : skipBlanks text = b :: body) (h : b ≠ '['.toUInt8) :
    indexedForm text = none ∧ pointerForm text = none ∧ memoryForm text = none := by
  simp [indexedForm, pointerForm, memoryForm, hskip, expect_ne h, bind, Option.bind]

theorem registerForm_ne (hskip : skipBlanks text = b :: body) (h : b ≠ 'R'.toUInt8) :
    registerForm text = none := by
  simp [registerForm, hskip, registerIndex_ne h]

theorem quoteForms_ne (hskip : skipBlanks text = b :: body) (h : b ≠ '\''.toUInt8) :
    characterForm text = none ∧ escapeForm text = none := by
  simp [characterForm, escapeForm, hskip, expect_ne h, bind, Option.bind]

theorem bracketed_ne (hskip : skipBlanks text = '['.toUInt8 :: body) :
    registerForm text = none ∧ numberForm text = none ∧ characterForm text = none ∧
      escapeForm text = none := by
  obtain ⟨hcharacter, hescape⟩ := quoteForms_ne hskip (by decide)
  have hnumber := number_ne hskip (by decide) (by decide) (by decide)
  exact ⟨registerForm_ne hskip (by decide), by simp [numberForm, hnumber], hcharacter, hescape⟩

/-- Blanks are skipped up to the name of a register. -/
theorem skipBlanks_nameBytes {w : List UInt8} (index : UInt8) (hw : Blanks w) :
    skipBlanks (w ++ (nameBytes index ++ rest)) = nameBytes index ++ rest := by
  apply skipBlanks_append hw
  rintro b' ⟨⟩
  rfl

/-- Blanks are skipped up to what stands in brackets. -/
theorem skipBlanks_bracket {w : List UInt8} (inner : List UInt8) (hw : Blanks w) :
    skipBlanks (w ++ ('['.toUInt8 :: inner)) = '['.toUInt8 :: inner := by
  apply skipBlanks_append hw
  rintro b' ⟨⟩
  rfl

theorem skipBlanks_numeral {w numeral : List UInt8} {n : Int} (hw : Blanks w)
    (hn : Numeral numeral n) : skipBlanks (w ++ (numeral ++ rest)) = numeral ++ rest := by
  obtain ⟨b, body, rfl, hb, -⟩ := hn.exists_first
  apply skipBlanks_append hw
  rintro b' ⟨⟩
  exact hb

end Forms

section Spelled

variable {taken rest : List UInt8} {o : Operand}

/-- The only form that matches a text is read. -/
theorem Form.Spells.read? {form : Form} (h : form.Spells taken o)
    (hends : form = .number → EndsNumber rest)
    (hothers : ∀ other, other ≠ form → other.reader (taken ++ rest) = none) :
    Operand.read? (taken ++ rest) = some (o, taken.length) := by
  have hmatch : form.Matches (taken ++ rest) o taken.length := ⟨taken, rest, rfl, rfl, h, hends⟩
  refine read?_eq_some_iff.mpr ⟨form, hmatch, ?_⟩
  intro other o' used' hother
  by_cases hsame : other = form
  · subst hsame
    exact .inr ⟨(hother.unique hmatch).2, Nat.le_refl _⟩
  · have hread := matchOf_eq_some_iff.mpr hother
    rw [matchOf, hothers other hsame] at hread
    cases hread

/-- The only form that matches a number. -/
theorem read?_numeral {w numeral : List UInt8} {n : Int} (hw : Blanks w) (hn : Numeral numeral n)
    (hr : EndsNumber rest) : read? (w ++ numeral ++ rest) =
      some (immediate (Int32.ofInt n), (w ++ numeral).length) := by
  obtain ⟨b, body, hcons, -, hbracket, hregister, hquote⟩ := hn.exists_first
  have hskip : skipBlanks (w ++ numeral ++ rest) = b :: (body ++ rest) := by
    rw [List.append_assoc, skipBlanks_numeral hw hn, hcons, List.cons_append]
  obtain ⟨hindexed, hpointer, hmemory⟩ := bracketForms_ne hskip hbracket
  obtain ⟨hcharacter, hescape⟩ := quoteForms_ne hskip hquote
  apply (Form.Spells.number hw hn).read? fun _ => hr
  intro other hother
  cases other with
  | offset => exact hindexed
  | pointer => exact hpointer
  | cell => exact hmemory
  | register => exact registerForm_ne hskip hregister
  | number => exact absurd rfl hother
  | character => exact hcharacter
  | escape => exact hescape

/-- The only form that matches the name of a register. -/
theorem read?_register {blanks : List UInt8} {index : UInt8} (hi : index.toNat < namedRegisters)
    (hb : Blanks blanks) : read? (blanks ++ nameBytes index ++ rest) =
      some (register index, (blanks ++ nameBytes index).length) := by
  have hskip : skipBlanks (blanks ++ nameBytes index ++ rest) =
      'R'.toUInt8 :: (['A'.toUInt8 + index, 'X'.toUInt8] ++ rest) := by
    rw [List.append_assoc]
    exact skipBlanks_nameBytes index hb
  obtain ⟨hindexed, hpointer, hmemory⟩ := bracketForms_ne hskip (by decide)
  obtain ⟨hcharacter, hescape⟩ := quoteForms_ne hskip (by decide)
  have hnumber := number_ne hskip (by decide) (by decide) (by decide)
  apply (Form.Spells.register hb hi).read? nofun
  intro other hother
  cases other with
  | offset => exact hindexed
  | pointer => exact hpointer
  | cell => exact hmemory
  | register => exact absurd rfl hother
  | number => rw [Form.reader, numberForm, hnumber, Option.map_none]
  | character => exact hcharacter
  | escape => exact hescape

/-- Of the forms with brackets only one takes a number. -/
theorem read?_cell {w₁ w₂ w₃ numeral : List UInt8} {n : Int} (h₁ : Blanks w₁) (h₂ : Blanks w₂)
    (h₃ : Blanks w₃) (hn : Numeral numeral n) :
    read? (w₁ ++ ['['.toUInt8] ++ w₂ ++ numeral ++ w₃ ++ [']'.toUInt8] ++ rest) =
      some (memory (Int32.ofInt n),
        (w₁ ++ ['['.toUInt8] ++ w₂ ++ numeral ++ w₃ ++ [']'.toUInt8]).length) := by
  have hskip := skipBlanks_bracket (w₂ ++ (numeral ++ (w₃ ++ ']'.toUInt8 :: rest))) h₁
  obtain ⟨b, body, hcons, -, -, hregister, -⟩ := hn.exists_first
  have hinner : registerIndex (skipBlanks (w₂ ++ (numeral ++ (w₃ ++ ']'.toUInt8 :: rest)))) =
      none := by
    rw [skipBlanks_numeral h₂ hn, hcons, List.cons_append]
    exact registerIndex_ne hregister
  have htext : w₁ ++ ['['.toUInt8] ++ w₂ ++ numeral ++ w₃ ++ [']'.toUInt8] ++ rest =
      w₁ ++ '['.toUInt8 :: (w₂ ++ (numeral ++ (w₃ ++ ']'.toUInt8 :: rest))) := by simp
  rw [← htext] at hskip
  obtain ⟨hname, hnumber, hcharacter, hescape⟩ := bracketed_ne hskip
  apply (Form.Spells.cell h₁ h₂ h₃ hn).read? nofun
  intro other hother
  cases other with
  | offset => simp only [Form.reader, indexedForm, hskip, expect_self, hinner, bind, Option.bind]
  | pointer => simp only [Form.reader, pointerForm, hskip, expect_self, hinner, bind, Option.bind]
  | cell => exact absurd rfl hother
  | register => exact hname
  | number => exact hnumber
  | character => exact hcharacter
  | escape => exact hescape

/-- How a register with an offset starts. -/
theorem Displaced.exists_start {base : UInt8} {distance : Int} (h : Displaced taken base distance)
    (rest : List UInt8) :
    ∃ w₁ w₂ w₃ direction tail, Blanks w₁ ∧ Blanks w₂ ∧ Blanks w₃ ∧ base.toNat < namedRegisters ∧
      (direction = '-'.toUInt8 ∨ direction = '+'.toUInt8) ∧ taken ++ rest =
        w₁ ++ '['.toUInt8 :: (w₂ ++ (nameBytes base ++ (w₃ ++ direction :: tail))) := by
  obtain @⟨w₁, w₂, w₃, w₄, w₅, numeral, _, minus, n, h₁, h₂, h₃, -, -, hb, -⟩ := h
  refine ⟨w₁, w₂, w₃, if minus then '-'.toUInt8 else '+'.toUInt8,
    w₄ ++ (numeral ++ (w₅ ++ ']'.toUInt8 :: rest)), h₁, h₂, h₃, hb, ?_, by simp⟩
  cases minus with
  | false => exact .inr rfl
  | true => exact .inl rfl

/-- Of the forms with brackets only one takes a register with an offset. -/
theorem read?_displaced {base : UInt8} {distance : Int} (h : Displaced taken base distance)
    (rest : List UInt8) :
    read? (taken ++ rest) = some (indexed base (Int32.ofInt distance), taken.length) := by
  obtain ⟨w₁, w₂, w₃, direction, tail, h₁, h₂, h₃, hb, hdirection, htext⟩ := h.exists_start rest
  have hskip := skipBlanks_bracket (w₂ ++ (nameBytes base ++ (w₃ ++ direction :: tail))) h₁
  rw [← htext] at hskip
  obtain ⟨hname, hnumber, hcharacter, hescape⟩ := bracketed_ne hskip
  have hinner := @skipBlanks_nameBytes (w₃ ++ direction :: tail) w₂ base h₂
  have hindex := number_ne hinner (by decide) (by decide) (by decide)
  have hdirected : skipBlanks (w₃ ++ direction :: tail) = direction :: tail := by
    apply skipBlanks_append h₃
    rintro b ⟨⟩
    rcases hdirection with rfl | rfl <;> rfl
  have hclose : expect ']' (direction :: tail) = none := by
    apply expect_ne
    rcases hdirection with rfl | rfl <;> decide
  apply (Form.Spells.offset h).read? nofun
  intro other hother
  cases other with
  | offset => exact absurd rfl hother
  | pointer =>
    simp only [Form.reader, pointerForm, hskip, expect_self, hinner, registerIndex_nameBytes hb,
      hdirected, hclose, bind, Option.bind]
  | cell => simp only [Form.reader, memoryForm, hskip, expect_self, hindex, bind, Option.bind]
  | register => exact hname
  | number => exact hnumber
  | character => exact hcharacter
  | escape => exact hescape

end Spelled

section Written

variable {rest : List UInt8}

theorem blanks_space : Blanks [' '.toUInt8] := by
  intro b hb
  rw [List.mem_singleton.mp hb]
  rfl

theorem decimalValue_digitBytes (n : Nat) : decimalValue (digitBytes n) = n := by
  calc decimalValue (digitBytes n)
    _ = Nat.ofDigitChars 10 (Text.digitsOf n) 0 := by
      rw [decimalValue, Nat.ofDigits_eq_foldr, List.foldr_reverse, List.foldl_map, digitBytes,
        List.foldl_map]
      apply List.foldl_ext
      intro value c hc
      obtain ⟨hlow, hhigh⟩ := bounds_of_isDigit (Text.isDigit_of_mem_digitsOf hc)
      simp only [Bytes.toNat_toUInt8, Char.reduceToNat, Nat.cast_id]
      omega
    _ = n := Nat.ofDigitChars_ten_toDigits

theorem numeral_digitBytes (n : Nat) : Numeral (digitBytes n) n := by
  have hnumeral := Numeral.unsigned ⟨digitBytes_ne_nil n, fun b hb => isDigitByte_of_mem hb⟩
  rwa [decimalValue_digitBytes] at hnumeral

theorem numeral_signedBytes (value : Int32) : Numeral (signedBytes value) value.toInt := by
  rw [signedBytes_eq]
  split
  · have hnumeral := Numeral.negative ⟨digitBytes_ne_nil value.toInt.natAbs,
      fun b hb => isDigitByte_of_mem hb⟩
    rw [decimalValue_digitBytes] at hnumeral
    convert hnumeral using 1
    omega
  · have hnumeral := numeral_digitBytes value.toInt.natAbs
    convert hnumeral using 1
    omega

/-- An offset is written with its sign as the direction. -/
theorem displaced_writtenBytes {blanks : List UInt8} {base : UInt8} (offset : Int32)
    (hbase : base.toNat < namedRegisters) (hb : Blanks blanks) :
    Displaced (blanks ++ writtenBytes (indexed base offset)) base offset.toInt := by
  have hspelled := @Displaced.intro blanks [] [' '.toUInt8] [' '.toUInt8] [] _ base
    (decide (offset.toInt < 0)) _ hb nofun blanks_space blanks_space nofun hbase
    (numeral_digitBytes offset.toInt.natAbs)
  convert hspelled using 1
  · simp [writtenBytes]
  · by_cases hneg : offset.toInt < 0
    · rw [decide_eq_true hneg, if_pos rfl]
      omega
    · rw [decide_eq_false hneg, if_neg Bool.false_ne_true]
      omega

/-- What is written for an operand is read back, up to the end of it. -/
theorem read?_writtenBytes {o : Operand} {blanks : List UInt8} (ho : o.Named)
    (hb : Blanks blanks) (hr : EndsNumber rest) :
    read? (blanks ++ o.writtenBytes ++ rest) = some (o, (blanks ++ o.writtenBytes).length) := by
  cases o with
  | immediate value =>
    have hread := read?_numeral hb (numeral_signedBytes value) hr
    rwa [Int32.ofInt_toInt] at hread
  | memory index =>
    have hread := @read?_cell rest blanks [] [] _ _ hb nofun nofun (numeral_signedBytes index)
    rw [Int32.ofInt_toInt] at hread
    simpa [writtenBytes] using hread
  | register index => exact read?_register ho hb
  | indexed base offset =>
    have hread := read?_displaced (displaced_writtenBytes offset ho hb) rest
    rwa [Int32.ofInt_toInt] at hread

end Written

end StackMachine.Operand
