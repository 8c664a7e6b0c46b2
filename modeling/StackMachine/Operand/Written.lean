import StackMachine.Operand
import StackMachine.Text.Number

namespace StackMachine

def namedRegisters : Nat := 26

/-- The name of a register, or its number if it has no name. -/
def registerName (index : UInt8) : String :=
  if index.toNat < namedRegisters then
    String.ofList ['R', Char.ofNat ('A'.toNat + index.toNat), 'X']
  else Text.decimal index.toNat

/-- The character that a value stands for, if it is printable ASCII. -/
def printable? (value : Int32) : Option Char :=
  if 0x20 ≤ value ∧ value ≤ 0x7e then some (Char.ofNat value.toInt.toNat) else none

/-- A value that is a printable ASCII character is followed by a comment which shows it. -/
def Operand.text : Operand → String
  | immediate value =>
    let number := Text.signed value.toInt
    match printable? value with
    | some c => number ++ " # '" ++ c.toString ++ "'"
    | none => number
  | memory index => "[" ++ Text.signed index.toInt ++ "]"
  | register index => registerName index
  | indexed base offset =>
    let sign := if offset < 0 then " - " else " + "
    "[" ++ registerName base ++ sign ++ Text.decimal offset.toInt.natAbs ++ "]"

end StackMachine
