import StackMachine.Proofs.Operand.Binary

namespace StackMachine

/-- The line has an operand `[Rx + N]` or `[Rx - N]`, whatever stands behind it. -/
def Displaces (line : String) (i : Instruction) (base : UInt8) (distance : Int) : Prop :=
  ∃ text taken rest, Statement.ofSource line = .instruction i text ∧ i.argument = some .operand ∧
    Bytes.ofChars text = taken ++ rest ∧ Operand.Displaced taken base distance

/-- The remark is about an offset that does not fit. -/
def Remark.isWide : Remark → Bool
  | wideOffset .. => true
  | _ => false

/-- There is a remark on an offset if and only if its word does not fit. -/
theorem Instruction.readOperand_displaced (i : Instruction) {text : List Char}
    {taken rest : List UInt8} {base : UInt8} {distance : Int}
    (htext : Bytes.ofChars text = taken ++ rest) (hd : Operand.Displaced taken base distance) :
    let word := Int32.ofInt distance
    (i.readOperand text).1 = .indexed base word ∧
      (i.readOperand text).2.filter Remark.isWide =
        if -2 ^ 23 ≤ word.toInt ∧ word.toInt < 2 ^ 23 then [] else [.wideOffset i word] := by
  intro word
  have hread := Operand.read?_displaced hd rest
  rw [← htext] at hread
  have htrailing (trailing : List Char) : (if isComment trailing then []
      else [Remark.trailingText i (String.ofList trailing)]).filter Remark.isWide = [] := by
    split <;> rfl
  simp only [readOperand, hread, ← Operand.fits_iff]
  split
  · exact ⟨rfl, htrailing _⟩
  · refine ⟨rfl, ?_⟩
    rw [List.filter_append, htrailing]
    rfl

section Assembled

variable {limits : Limits} {lines before after : List String} {line : String} {a : Assembly}
  {i : Instruction} {base : UInt8} {distance : Int}

/-- An offset counts modulo `2 ^ 32`, so if it fits in a word it counts as it is. If the word does
not fit in 24 bits, there is one warning about it. If it does, there is none, and the instruction is
decoded to the register and the word. -/
theorem offset_kept_or_warned (ha : assemble limits lines = .ok a)
    (hl : lines = before ++ line :: after) (hd : Displaces line i base distance) :
    let word := Int32.ofInt distance
    let fits := -2 ^ 23 ≤ word.toInt ∧ word.toInt < 2 ^ 23
    word.toInt = distance.bmod (2 ^ 32) ∧
    (-2 ^ 31 ≤ distance ∧ distance < 2 ^ 31 → word.toInt = distance) ∧
    (a.warnings.toList.filter fun w => w.line = before.length + 1 ∧ w.remark.isWide) =
      (if fits then [] else [⟨before.length + 1, .wideOffset i word⟩]) ∧
    (fits → ∃ d, Decoded.read a.program.bytes (Program.headerSize + codeSize before) = .ok d ∧
      d.instruction = i ∧ d.operand = .indexed base word) := by
  intro word fits
  obtain ⟨text, taken, rest, hs, hargument, htext, hdisplaced⟩ := hd
  obtain ⟨hoperand, hremarks⟩ := i.readOperand_displaced htext hdisplaced
  refine ⟨Int32.toInt_ofInt, ?_, ?_, ?_⟩
  · rintro ⟨hlow, hhigh⟩
    exact Int32.toInt_ofInt_of_le hlow hhigh
  · have hwarnings := congrArg (List.filter fun w => w.remark.isWide) (warnings_at ha hl)
    simp only [hs, Statement.remarks, Instruction.encode, hargument, List.filter_filter,
      List.filter_map] at hwarnings
    have hown : (fun w => w.remark.isWide) ∘ Warning.mk (before.length + 1) = Remark.isWide := rfl
    rw [hown, hremarks] at hwarnings
    simp only [Bool.decide_and, Bool.decide_eq_true, Bool.and_comm] at hwarnings ⊢
    rw [hwarnings]
    split <;> rfl
  · intro hfits
    have hoffset := offset_finalPass ha hl
    have hread := (Emitted.read ha ⟨before, line, after, hl, hs, hoffset, rfl⟩).1
    refine ⟨_, hread, Instruction.instruction_coded .., ?_⟩
    simp only [Decoded.operand, Coded.decoded, Instruction.coded, hargument, hoperand]
    exact Operand.ofPayload_indexed base (Operand.fits_iff.mpr hfits)

/-- The least offset is kept, and there is a warning about one that is larger than the greatest. -/
theorem offset_kept_or_warned_least :
    let lines := ["PUSH 1", "MOVE [RBX - 8388608] # least", "PUSH [RBX+ +8388608 ]"]
    ∃ a, assemble ⟨0, 15⟩ lines = .ok a ∧
      Displaces "MOVE [RBX - 8388608] # least" .move 1 (-8388608) ∧
      Displaces "PUSH [RBX+ +8388608 ]" .push 1 8388608 ∧
      (∃ d, Decoded.read a.program.bytes 21 = .ok d ∧ d.instruction = .move ∧
        d.operand = .indexed 1 (-8388608)) ∧
      (a.warnings.toList.filter fun w => w.line = 3 ∧ w.remark.isWide) =
        [⟨3, .wideOffset .push 8388608⟩] := by
  intro lines
  have hassembled : assemble ⟨0, 15⟩ lines =
      .ok ⟨.ofBody #[8, 1, 0, 0, 0, 23, 1, 0, 0, 0x80, 11, 1, 0, 0, 0x80],
        #[⟨"PUSH 1", 16, [8, 1, 0, 0, 0]⟩,
          ⟨"MOVE [RBX - 8388608] # least", 21, [23, 1, 0, 0, 0x80]⟩,
          ⟨"PUSH [RBX+ +8388608 ]", 26, [11, 1, 0, 0, 0x80]⟩],
        #[⟨3, .wideOffset .push 8388608⟩]⟩ := by decide +kernel
  have hdigits : Operand.Digits (Bytes.ofChars "8388608".toList) := by decide
  have hvalue : Operand.decimalValue (Bytes.ofChars "8388608".toList) = 8388608 := by decide +kernel
  have hleast : Displaces "MOVE [RBX - 8388608] # least" .move 1 (-8388608) := by
    refine ⟨"[RBX - 8388608] # least".toList, Bytes.ofChars "[RBX - 8388608]".toList,
      Bytes.ofChars " # least".toList, by decide +kernel, rfl, by decide +kernel, ?_⟩
    have hnumeral := Operand.Numeral.unsigned hdigits
    rw [hvalue] at hnumeral
    exact @Operand.Displaced.intro [] [] [' '.toUInt8] [' '.toUInt8] [] _ 1 true _ nofun nofun
      Operand.blanks_space Operand.blanks_space nofun (by decide) hnumeral
  have hwide : Displaces "PUSH [RBX+ +8388608 ]" .push 1 8388608 := by
    refine ⟨"[RBX+ +8388608 ]".toList, Bytes.ofChars "[RBX+ +8388608 ]".toList, [],
      by decide +kernel, rfl, by decide +kernel, ?_⟩
    have hnumeral := Operand.Numeral.positive hdigits
    rw [hvalue] at hnumeral
    exact @Operand.Displaced.intro [] [] [] [' '.toUInt8] [' '.toUInt8] _ 1 false _ nofun nofun
      nofun Operand.blanks_space Operand.blanks_space (by decide) hnumeral
  have hsize : codeSize ["PUSH 1"] = 5 := by decide +kernel
  have hl : lines = ["PUSH 1"] ++ "MOVE [RBX - 8388608] # least" :: ["PUSH [RBX+ +8388608 ]"] := rfl
  have hl' : lines =
      ["PUSH 1", "MOVE [RBX - 8388608] # least"] ++ "PUSH [RBX+ +8388608 ]" :: [] := rfl
  obtain ⟨-, -, -, hkept⟩ := offset_kept_or_warned hassembled hl hleast
  obtain ⟨-, -, hwarned, -⟩ := offset_kept_or_warned hassembled hl' hwide
  rw [hsize] at hkept
  exact ⟨_, hassembled, hleast, hwide, hkept (by decide), hwarned⟩

/-- An offset that does not fit in a word wraps around to one that fits in 24 bits, and there is no
warning. -/
theorem offset_wraps_silently :
    ¬ ∀ (limits : Limits) (lines before after : List String) (line : String) (a : Assembly)
        (i : Instruction) (base : UInt8) (distance : Int),
      assemble limits lines = .ok a → lines = before ++ line :: after →
      Displaces line i base distance →
        let fits := -2 ^ 23 ≤ distance ∧ distance < 2 ^ 23
        (a.warnings.toList.filter fun w => w.line = before.length + 1 ∧ w.remark.isWide).length =
            (if fits then 0 else 1) ∧
          ((a.warnings.toList.filter fun w => w.line = before.length + 1 ∧ w.remark.isWide) = [] →
            ∃ d offset,
              Decoded.read a.program.bytes (Program.headerSize + codeSize before) = .ok d ∧
              d.instruction = i ∧ d.operand = .indexed base offset ∧ offset.toInt = distance) := by
  intro h
  have hassembled : assemble ⟨0, 5⟩ ["PUSH [RAX + 4294967297]"] =
      .ok ⟨.ofBody #[11, 0, 1, 0, 0],
        #[⟨"PUSH [RAX + 4294967297]", 16, [11, 0, 1, 0, 0]⟩], #[]⟩ := by decide +kernel
  have hdisplaces : Displaces "PUSH [RAX + 4294967297]" .push 0 4294967297 := by
    refine ⟨"[RAX + 4294967297]".toList, Bytes.ofChars "[RAX + 4294967297]".toList, [],
      by decide +kernel, rfl, by decide +kernel, ?_⟩
    have hdigits : Operand.Digits (Bytes.ofChars "4294967297".toList) := by decide
    have hvalue : Operand.decimalValue (Bytes.ofChars "4294967297".toList) = 4294967297 := by
      decide +kernel
    have hnumeral := Operand.Numeral.unsigned hdigits
    rw [hvalue] at hnumeral
    exact @Operand.Displaced.intro [] [] [' '.toUInt8] [' '.toUInt8] [] _ 0 false _ nofun nofun
      Operand.blanks_space Operand.blanks_space nofun (by decide) hnumeral
  obtain ⟨hwarned, -⟩ := h ⟨0, 5⟩ _ [] [] _ _ .push 0 4294967297 hassembled rfl hdisplaces
  revert hwarned
  decide

end Assembled

end StackMachine
