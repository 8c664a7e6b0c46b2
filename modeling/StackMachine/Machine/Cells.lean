import StackMachine.Fault

namespace StackMachine

/-- The greatest number of cells in a block. A signed word can number all of them. -/
def maxCells : Nat := 0x7FFFFFFF

/-- So many cells, all zero; refused where there would be too many. -/
def zeroCells (purpose : String) (count : Nat) : Except Fault (Array Int32) :=
  if count ≤ maxCells then .ok (Array.replicate count 0)
  else .error (.allocation purpose count)

/-- The index that a number stands for, within a block of the given size. -/
def indexIn? (size : Nat) (index : Int) : Option Nat :=
  if 0 ≤ index ∧ index < size then some index.toNat else none

abbrev Registers := Array Int32

namespace Registers

def make (count : Nat) : Except Fault Registers :=
  zeroCells "registers" count

/-- The fault of a register number without a register. A negative number is reported as the
greatest unsigned one. -/
def missing (r : Registers) (index : Int32) : Fault :=
  .noRegister (if index < 0 then 0xFFFFFFFFFFFFFFFF else index.toInt.toNat) r.size

def get (r : Registers) (index : Int32) : Except Fault Int32 :=
  match indexIn? r.size index.toInt with
  | some i => .ok (r.getD i 0)
  | none => .error (r.missing index)

def set (r : Registers) (index value : Int32) : Except Fault Registers :=
  match indexIn? r.size index.toInt with
  | some i => .ok (r.setIfInBounds i value)
  | none => .error (r.missing index)

end Registers

inductive Cell where
  | register (index : Nat)
  | memory (index : Nat)
  deriving Repr, DecidableEq

structure Cells where
  registers : Registers
  memory : Array Int32
  deriving Repr, DecidableEq

namespace Cells

def memoryCell (c : Cells) (index : Int) : Except Fault Cell :=
  match indexIn? c.memory.size index with
  | some i => .ok (.memory i)
  | none => .error (.noMemory index c.memory.size)

def registerCell (c : Cells) (index : UInt8) : Except Fault Cell :=
  if index.toNat < c.registers.size then .ok (.register index.toNat)
  else .error (.noRegister index.toNat c.registers.size)

def value (c : Cells) : Cell → Int32
  | .register i => c.registers.getD i 0
  | .memory i => c.memory.getD i 0

def set (c : Cells) (cell : Cell) (value : Int32) : Cells :=
  match cell with
  | .register i => { c with registers := c.registers.setIfInBounds i value }
  | .memory i => { c with memory := c.memory.setIfInBounds i value }

/-- The cell that an operand names. The index of an indexed one is the exact sum of a register and
an offset; it does not wrap. -/
def locate (c : Cells) : Operand → Except Fault Cell
  | .immediate value => .error (.notACell value)
  | .memory index => c.memoryCell index.toInt
  | .register index => c.registerCell index
  | .indexed base offset => do
    let cell ← c.registerCell base
    c.memoryCell ((c.value cell).toInt + offset.toInt)

/-- The value of an operand: the immediate value, or that of the cell. -/
def read (c : Cells) : Operand → Except Fault Int32
  | .immediate value => .ok value
  | operand => do
    let cell ← c.locate operand
    .ok (c.value cell)

end Cells

end StackMachine
