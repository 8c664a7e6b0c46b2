import StackMachine.Bytes

namespace StackMachine

inductive Mode where
  | immediate
  | register
  | memory
  | indexed
  deriving Repr, DecidableEq

namespace Mode

/-- The number of a mode in the low bits of a first byte. -/
def number : Mode → UInt8
  | immediate => 0
  | register => 1
  | memory => 2
  | indexed => 3

/-- Only the low two bits of a byte count. -/
def ofByte (byte : UInt8) : Mode :=
  match byte &&& 3 with
  | 0 => immediate
  | 1 => register
  | 2 => memory
  | _ => indexed

@[simp] theorem ofByte_number (m : Mode) : ofByte m.number = m := by
  cases m <;> rfl

end Mode

inductive Operand where
  | immediate (value : Int32)
  /-- The memory cell with this index. -/
  | memory (index : Int32)
  | register (index : UInt8)
  /-- The memory cell whose index is the value of a register plus an offset. -/
  | indexed (base : UInt8) (offset : Int32)
  deriving Repr, DecidableEq

namespace Operand

/-- Offsets from the least to the greatest fit in 24 bits. -/
def leastOffset : Int32 := -0x800000

def greatestOffset : Int32 := 0x7FFFFF

def mode : Operand → Mode
  | immediate _ => .immediate
  | memory _ => .memory
  | register _ => .register
  | indexed .. => .indexed

/-- The payload word. A register with an offset has its low byte, and the offset the 24 bits above;
the upper eight bits of the offset are lost. -/
def payload : Operand → Int32
  | immediate value => value
  | memory index => index
  | register index => index.toUInt32.toInt32
  | indexed base offset => (offset <<< 8) ||| base.toUInt32.toInt32

/-- The operand with the given mode and payload. -/
def ofPayload (mode : Mode) (payload : Int32) : Operand :=
  match mode with
  | .immediate => immediate payload
  | .memory => memory payload
  | .register => register payload.toUInt32.toUInt8
  | .indexed => indexed payload.toUInt32.toUInt8 (payload >>> 8)

def bytes (o : Operand) : List UInt8 :=
  Bytes.ofWord o.payload.toUInt32

@[simp] theorem mode_ofPayload (m : Mode) (p : Int32) : (ofPayload m p).mode = m := by
  cases m <;> rfl

@[simp] theorem length_bytes (o : Operand) : o.bytes.length = 4 := rfl

end Operand

end StackMachine
