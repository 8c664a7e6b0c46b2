import StackMachine.Operand.Written
import StackMachine.Program

namespace StackMachine

/-- An instruction in a program, from its first byte to the next instruction. -/
structure Decoded where
  offset : Nat
  instruction : Instruction
  mode : Mode
  /-- The word after the first byte; zero if there is no argument. -/
  payload : Int32
  next : Nat
  deriving Repr, DecidableEq

namespace Decoded

def operand (d : Decoded) : Operand :=
  .ofPayload d.mode d.payload

/-- A register number by name, or as it is where it names no register. -/
def registerText (index : Int32) : String :=
  if 0 ≤ index ∧ index < 256 then registerName (UInt8.ofNat index.toInt.toNat)
  else Text.signed index.toInt

def text (d : Decoded) : String :=
  match d.instruction.argument with
  | none => d.instruction.mnemonic
  | some .operand => d.instruction.mnemonic ++ " " ++ d.operand.text
  | some .displacement => d.instruction.mnemonic ++ " " ++ Text.signed d.payload.toInt
  | some .register => d.instruction.mnemonic ++ " " ++ registerText d.payload

end Decoded

end StackMachine
