namespace StackMachine

/-- What the four bytes after the first byte stand for. -/
inductive ArgumentKind where
  | operand
  /-- A distance from the end of the instruction. -/
  | displacement
  | register
  deriving Repr, DecidableEq

/-- The instructions in the order of their opcodes. -/
inductive Instruction where
  | halt
  | abort
  | push
  | pop
  | dup
  | move
  | add
  | sub
  | mul
  | div
  | jump
  /-- Jumps if the top value is greater than the one below. -/
  | jumpGreater
  | jumpLess
  | jumpEqual
  | jumpGreaterEqual
  | jumpLessEqual
  /-- Jumps, and remembers the offset of the next instruction. -/
  | call
  /-- Goes back to the offset remembered last. -/
  | ret
  | getRegister
  | setRegister
  | print
  | printChar
  | read
  /-- Stores into the screen cell with the number on top, and drops that number. -/
  | setPixel
  /-- Replaces the number on top by the value of that screen cell. -/
  | getPixel
  /-- Stores into the memory cell with the number on top, and drops that number. -/
  | store
  /-- Replaces the number on top by the value of that memory cell. -/
  | load
  | clear
  | draw
  deriving Repr, DecidableEq

namespace Instruction

/-- A row of the instruction table. -/
structure Entry where
  mnemonic : String
  argument : Option ArgumentKind
  /-- Operands that have to be on the stack. -/
  inputs : Nat

def entry : Instruction → Entry
  | halt => ⟨"END", none, 0⟩
  | abort => ⟨"ABORT", none, 0⟩
  | push => ⟨"PUSH", some .operand, 0⟩
  | pop => ⟨"POP", none, 1⟩
  | dup => ⟨"DUP", none, 1⟩
  | move => ⟨"MOVE", some .operand, 1⟩
  | add => ⟨"ADD", none, 2⟩
  | sub => ⟨"SUB", none, 2⟩
  | mul => ⟨"MUL", none, 2⟩
  | div => ⟨"DIV", none, 2⟩
  | jump => ⟨"JMP", some .displacement, 0⟩
  | jumpGreater => ⟨"JMPG", some .displacement, 2⟩
  | jumpLess => ⟨"JMPL", some .displacement, 2⟩
  | jumpEqual => ⟨"JMPE", some .displacement, 2⟩
  | jumpGreaterEqual => ⟨"JMPGE", some .displacement, 2⟩
  | jumpLessEqual => ⟨"JMPLE", some .displacement, 2⟩
  | call => ⟨"CALL", some .displacement, 0⟩
  | ret => ⟨"RET", none, 0⟩
  | getRegister => ⟨"RGET", some .register, 0⟩
  | setRegister => ⟨"RSET", some .register, 1⟩
  | print => ⟨"OUT", none, 1⟩
  | printChar => ⟨"OUTC", none, 1⟩
  | read => ⟨"IN", none, 0⟩
  | setPixel => ⟨"VSET", none, 2⟩
  | getPixel => ⟨"VGET", none, 1⟩
  | store => ⟨"MSET", none, 2⟩
  | load => ⟨"MGET", none, 1⟩
  | clear => ⟨"CCLR", none, 0⟩
  | draw => ⟨"DRAW", none, 0⟩

def all : List Instruction :=
  [halt, abort, push, pop, dup, move, add, sub, mul, div, jump, jumpGreater, jumpLess,
   jumpEqual, jumpGreaterEqual, jumpLessEqual, call, ret, getRegister, setRegister, print,
   printChar, read, setPixel, getPixel, store, load, clear, draw]

def mnemonic (i : Instruction) : String :=
  i.entry.mnemonic

def argument (i : Instruction) : Option ArgumentKind :=
  i.entry.argument

def inputs (i : Instruction) : Nat :=
  i.entry.inputs

/-- The opcode is the place in the list of all instructions. -/
def opcode (i : Instruction) : UInt8 :=
  UInt8.ofNat (all.idxOf i)

def ofOpcode? (opcode : UInt8) : Option Instruction :=
  all[opcode.toNat]?

/-- Mnemonics are matched letter by letter, in upper case only. -/
def ofMnemonic? (word : String) : Option Instruction :=
  all.find? fun i => i.mnemonic == word

def argumentSize : Nat := 4

def size (i : Instruction) : Nat :=
  if i.argument.isSome then 1 + argumentSize else 1

/-- An instruction that goes on at a distance given in its argument. -/
def isBranch (i : Instruction) : Bool :=
  i.argument == some .displacement

/-- The first byte of an instruction, with the addressing mode of the given number. -/
def firstByte (i : Instruction) (mode : UInt8) : UInt8 :=
  (i.opcode <<< 2) ||| (mode &&& 3)

/-- The opcode and the number of the addressing mode in a first byte. -/
def splitByte (byte : UInt8) : UInt8 × UInt8 :=
  (byte >>> 2, byte &&& 3)

theorem ofOpcode?_opcode (i : Instruction) : ofOpcode? i.opcode = some i := by
  cases i <;> rfl

theorem ofMnemonic?_mnemonic (i : Instruction) : ofMnemonic? i.mnemonic = some i := by
  cases i <;> decide

/-- A mnemonic is looked up by equality alone. -/
theorem mnemonic_of_ofMnemonic? {word : String} {i : Instruction}
    (h : ofMnemonic? word = some i) : i.mnemonic = word := by
  simpa using List.find?_some h

end Instruction

end StackMachine
