import StackMachine.Proofs.Disassembly.Reassembly
import StackMachine.Proofs.Operand.Reread

namespace StackMachine

open Text

namespace Instruction

theorem firstByte_injective {i : Instruction} {m n : Mode}
    (h : i.firstByte m.number = i.firstByte n.number) : m = n := by
  have hsplit := congrArg splitByte h
  rw [splitByte_firstByte, splitByte_firstByte] at hsplit
  have hmode := congrArg Mode.ofByte (Prod.mk.inj hsplit).2
  rwa [Mode.ofByte_number, Mode.ofByte_number] at hmode

theorem argument_eq_operand_iff (i : Instruction) :
    i.argument = some .operand ↔ i = .push ∨ i = .move := by
  cases i <;> decide

end Instruction

namespace Coded

/-- The instruction that the text of an instruction stands for. -/
def reread (c : Coded) : Coded :=
  if c.instruction.argument = some .operand then
    ⟨c.instruction, c.operand.reread.mode, c.operand.reread.payload⟩
  else c

@[simp] theorem instruction_reread (c : Coded) : c.reread.instruction = c.instruction := by
  unfold reread
  split <;> rfl

theorem reread_operand {c : Coded} (h : c.instruction.argument = some .operand) :
    c.reread = ⟨c.instruction, c.operand.reread.mode, c.operand.reread.payload⟩ :=
  if_pos h

theorem reread_plain {c : Coded} (h : c.instruction.argument ≠ some .operand) : c.reread = c :=
  if_neg h

/-- The text of a proper instruction stands for an instruction in any case. -/
theorem readFrom_text {c : Coded} (hp : c.Proper) : c.reread.ReadFrom c.text.toList := by
  by_cases ha : c.instruction.argument = some .operand
  · have hline : c.text.toList = c.instruction.mnemonic.toList ++ ' ' :: c.operand.text.toList := by
      simp [text, Decoded.text, decoded, ha, Decoded.operand, operand]
    have htidy := c.operand.tidy_text
    rw [hline]
    refine ⟨c.instruction.tidy_argument htidy c.operand.text_ne_nil, c.operand.text.toList, ?_, ?_⟩
    · rw [instruction_reread]
      exact Statement.ofLine_argument _ htidy
    · intro labels offset
      have hread := c.instruction.readOperand_text_eq c.fits_operand
      simp only [reread_operand ha, Instruction.encode, ha, hread, bytes, Operand.bytes,
        Option.isSome_some, ↓reduceIte]
  · have hw : c.Writable := ⟨fun h => absurd h ha, fun h => absurd h ha⟩
    rw [reread_plain ha]
    exact (writtenAs_text hp hw).readFrom

/-- The mode and the payload of an operand are in its bytes. -/
theorem bytes_operand_iff {i : Instruction} (h : i.argument = some .operand) {m n : Mode}
    {v w : Int32} : (Coded.mk i m v).bytes = (Coded.mk i n w).bytes ↔ m = n ∧ v = w := by
  constructor
  · intro hbytes
    simp only [bytes, h, Option.isSome_some, ↓reduceIte, List.cons.injEq] at hbytes
    have hword := Bytes.ofWord_injective hbytes.2
    refine ⟨Instruction.firstByte_injective hbytes.1, ?_⟩
    rw [← v.toInt32_toUInt32, hword, w.toInt32_toUInt32]
  · rintro ⟨rfl, rfl⟩
    rfl

/-- The registers of an operand have names, and where a register is all there is to an operand the
payload is its number. -/
structure Nameable (mode : Mode) (payload : Int32) : Prop where
  register : mode = .register → 0 ≤ payload ∧ payload ≤ 25
  indexed : mode = .indexed → payload.toUInt32.toUInt8 ≤ 25

/-- The text of an operand stands for the same bytes if and only if it is nameable. -/
theorem bytes_reread_iff {c : Coded} (ha : c.instruction.argument = some .operand) :
    c.reread.bytes = c.bytes ↔ Nameable c.mode c.payload := by
  obtain ⟨i, mode, payload⟩ := c
  rw [reread_operand ha, bytes_operand_iff ha]
  cases mode with
  | immediate => exact ⟨fun _ => ⟨by simp, by simp⟩, fun _ => ⟨rfl, rfl⟩⟩
  | memory => exact ⟨fun _ => ⟨by simp, by simp⟩, fun _ => ⟨rfl, rfl⟩⟩
  | register =>
    rw [operand, Operand.reread_register_iff]
    exact ⟨fun h => ⟨fun _ => h, by simp⟩, fun h => h.register rfl⟩
  | indexed =>
    rw [operand, Operand.reread_indexed_iff]
    exact ⟨fun h => ⟨by simp, fun _ => h⟩, fun h => h.indexed rfl⟩

theorem length_code_reread (items : List Coded) :
    (code (items.map reread)).length = (code items).length := by
  induction items with
  | nil => rfl
  | cons c rest ih => simp [ih]

/-- Instructions of the same lengths have the same code only if each has the same bytes. -/
theorem code_reread_iff (items : List Coded) :
    code (items.map reread) = code items ↔ ∀ c ∈ items, c.reread.bytes = c.bytes := by
  induction items with
  | nil => simp
  | cons c rest ih =>
    rw [List.map_cons, code_cons, code_cons, List.forall_mem_cons, ← ih]
    constructor
    · intro h
      exact List.append_inj h (by simp)
    · rintro ⟨hfirst, hrest⟩
      rw [hfirst, hrest]

/-- What is said of all instructions in a sequence does not depend on where they stand. -/
theorem forall_sequence {P : Instruction → Mode → Int32 → Prop} (items : List Coded)
    (offset : Nat) : (∀ d ∈ sequence offset items, P d.instruction d.mode d.payload) ↔
      ∀ c ∈ items, P c.instruction c.mode c.payload := by
  induction items generalizing offset with
  | nil => simp [sequence]
  | cons c rest ih => rw [sequence, List.forall_mem_cons, List.forall_mem_cons, ih]; rfl

end Coded

/-- A program that is disassembled to its end gives a body of the same length when its text is
assembled, wherever there is room for it. The body is the same if and only if the operand of each
push and each move is nameable. -/
theorem reassembled_body {p : Program} (h : (Disassembly.ofProgram p).fault = none)
    {limits : Limits} (hroom : p.body.size ≤ limits.body) :
    ∃ b, assembleText limits (Disassembly.ofProgram p).text = .ok b ∧
      b.program.body.size = p.body.size ∧
      (b.program.body = p.body ↔ ∀ d ∈ (Disassembly.ofProgram p).code.toList,
        d.instruction = .push ∨ d.instruction = .move → Coded.Nameable d.mode d.payload) := by
  obtain ⟨items, hproper, hbody, hcode⟩ := Disassembly.items_of_program h
  have hread : ∀ c ∈ items, c.reread.ReadFrom c.text.toList :=
    fun c hc => Coded.readFrom_text (hproper c hc)
  have hlines := Disassembly.trimmedLines_of_tidy (by rw [hcode, Coded.map_text_sequence])
    fun c hc => (hread c hc).tidy
  have hsize : p.body.size = (Coded.code items).length := by
    rw [← hbody, Array.length_toList]
  have hfits : (Coded.code (items.map Coded.reread)).length ≤ limits.body := by
    rw [Coded.length_code_reread, ← hsize]
    exact hroom
  obtain ⟨b, hb, hprogram⟩ :=
    assemble_readFrom (Disassembly.openingLines_comments (Disassembly.ofProgram p).version)
      hread hfits
  have hagain : b.program.body.toList = Coded.code (items.map Coded.reread) := by
    rw [hprogram, Program.body_ofBody]
  refine ⟨b, by rw [assembleText, hlines, hb], ?_, ?_⟩
  · rw [← Array.length_toList, hagain, Coded.length_code_reread, hsize]
  · rw [← Array.toList_inj, hagain, hbody, hcode, Coded.code_reread_iff,
      @Coded.forall_sequence fun i mode payload =>
        i = .push ∨ i = .move → Coded.Nameable mode payload]
    constructor
    · intro hall c hc hi
      exact (Coded.bytes_reread_iff ((Instruction.argument_eq_operand_iff _).mpr hi)).mp (hall c hc)
    · intro hall c hc
      by_cases ha : c.instruction.argument = some .operand
      · exact (Coded.bytes_reread_iff ha).mpr
          (hall c hc ((Instruction.argument_eq_operand_iff _).mp ha))
      · rw [Coded.reread_plain ha]

/-- The first register without a name becomes a value. -/
theorem reassembled_body_unnamed :
    let p : Program := .ofBody #[9, 26, 0, 0, 0]
    (Disassembly.ofProgram p).fault = none ∧ p.body.size ≤ 5 ∧
      ∃ b, assembleText ⟨0, 5⟩ (Disassembly.ofProgram p).text = .ok b ∧
        b.program.body.size = 5 ∧ b.program.body ≠ p.body := by
  intro p
  have hproper : ∀ c ∈ [Coded.mk .push .register 26], c.Proper := by
    intro c hc
    rw [List.mem_singleton.mp hc]
    exact ⟨fun h => absurd rfl h, nofun⟩
  have hcode := Disassembly.ofProgram_code (p := p) hproper (by decide)
  have hnone : (Disassembly.ofProgram p).fault = none := congrArg Disassembly.fault hcode
  have hroom : p.body.size ≤ (Limits.mk 0 5).body := by decide
  obtain ⟨b, hb, hsize, hiff⟩ := reassembled_body hnone hroom
  refine ⟨hnone, hroom, b, hb, hsize, ?_⟩
  intro hsame
  have hnameable := hiff.mp hsame (Coded.decoded ⟨.push, .register, 26⟩ 16)
    (by rw [hcode]; exact List.mem_cons_self) (.inl rfl)
  exact absurd (hnameable.register rfl).2 (by decide)

end StackMachine
