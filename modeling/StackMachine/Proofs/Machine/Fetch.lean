import StackMachine.Disassembly
import StackMachine.Machine
import Mathlib.Tactic.Common

namespace StackMachine

/-- The low bits of a first byte are zero for the first mode alone. -/
theorem Mode.ofByte_splitByte_eq_immediate_iff (byte : UInt8) :
    Mode.ofByte (Instruction.splitByte byte).2 = .immediate ↔
      (Instruction.splitByte byte).2 = 0 := by
  have hall : ∀ n < 256, Mode.ofByte (UInt8.ofNat n &&& 3) = .immediate ↔
      UInt8.ofNat n &&& 3 = 0 := by
    decide +kernel
  have hbyte := hall byte.toNat byte.toNat_lt
  rwa [UInt8.ofNat_toNat] at hbyte

namespace Machine

/-- A handler is given the kind of argument that the instruction table has. -/
theorem argument_handler (callDepth : Nat) (i : Instruction) :
    (handler callDepth i).argument = i.argument := by
  cases i <;> rfl

variable {m : Machine}

theorem readByte_eq {byte : UInt8} {c : Cursor}
    (h : Cursor.byte ⟨m.program.bytes, m.ip⟩ = .ok (byte, c)) :
    m.readByte m.ip = .ok (byte, c.position) ∧ c = ⟨m.program.bytes, c.position⟩ := by
  obtain ⟨hmoved, -, -⟩ := Cursor.moved_of_byte h
  have hbytes : c.bytes = m.program.bytes := hmoved
  refine ⟨?_, by rw [← hbytes]⟩
  simp only [readByte, h, bind, Except.bind]

/-- What a machine takes an instruction for is what the disassembly finds there, if the inputs are
there. Where they are not, the argument is not read. -/
theorem fetch_eq (m : Machine) : m.fetch = (do
    let (opening, c) ← Opening.read ⟨m.program.bytes, m.ip⟩
    if m.store.data.size.toNat < opening.instruction.inputs then
      .error (.stackUnderflow opening.instruction m.ip)
    else opening.finish m.ip c) := by
  cases hb : Cursor.byte ⟨m.program.bytes, m.ip⟩ with
  | error fault => simp only [fetch, readByte, Opening.read, hb, bind, Except.bind]
  | ok r =>
    obtain ⟨byte, c⟩ := r
    obtain ⟨hbyte, hc⟩ := readByte_eq hb
    simp only [fetch, Opening.read, hbyte, hb, bind, Except.bind]
    cases hi : Instruction.ofOpcode? (Instruction.splitByte byte).1 with
    | none => rfl
    | some i =>
      have hmode := not_congr (Mode.ofByte_splitByte_eq_immediate_iff byte)
      simp only [ne_eq, hmode]
      by_cases hstray : ¬ (Instruction.splitByte byte).2 = 0 ∧ ¬ i.argument = some .operand
      · simp only [hstray, not_false_eq_true, and_self, ↓reduceIte]
      · simp only [hstray, ↓reduceIte]
        by_cases hless : m.store.data.size.toNat < i.inputs
        · simp only [hless, ↓reduceIte]
        · simp only [hless, ↓reduceIte, argument_handler, Opening.finish]
          cases ha : i.argument with
          | none => rfl
          | some kind =>
            rw [hc]
            cases hw : Cursor.word ⟨m.program.bytes, c.position⟩ with
            | error fault => simp [readWord, hw, bind, Except.bind]
            | ok r => simp [readWord, hw, bind, Except.bind]

end Machine

end StackMachine
