import StackMachine.GuardedStack
import StackMachine.Instruction
import StackMachine.Operand
import StackMachine.Text.Quoted

namespace StackMachine

inductive DeviceFault where
  /-- It takes no more bytes. -/
  | full
  | flushFailed
  | lost
  /-- It gave bytes that are not UTF-8. -/
  | notText
  deriving Repr, DecidableEq

def DeviceFault.message : DeviceFault → String
  | full => "device full"
  | flushFailed => "flush failed"
  | lost => "device lost"
  | notText => "stream did not contain valid UTF-8"

inductive FileFault where
  | notFound
  | notADirectory
  | isADirectory
  | nameTooLong
  /-- It holds bytes that are not UTF-8. -/
  | notText
  | other (message : String)
  deriving Repr, DecidableEq

def FileFault.message : FileFault → String
  | notFound => "No such file or directory (os error 2)"
  | notADirectory => "Not a directory (os error 20)"
  | isADirectory => "Is a directory (os error 21)"
  | nameTooLong => "File name too long (os error 36)"
  | notText => "stream did not contain valid UTF-8"
  | other message => message

inductive StackRole where
  | data
  | call
  deriving Repr, DecidableEq

def StackRole.name : StackRole → String
  | data => "data"
  | call => "call"

/-- What ends an assembly, a run, a disassembly or the work of a tool. -/
inductive Fault where
  /-- A command line lacks something. -/
  | usage (reason : String)
  | truncatedHeader (needed actual : Nat)
  | badMagic (found expected : List UInt8)
  /-- A program was made by a newer tool. -/
  | unsupportedVersion (found supported : Nat)
  | file (path : String) (cause : FileFault)
  | output (cause : DeviceFault)
  | input (cause : DeviceFault)
  | tooLarge (quantity : String) (limit : Nat)
  | allocation (purpose : String) (cells : Nat)
  /-- An assembled body would not fit. -/
  | bodyTooLong (needed capacity : Nat)
  | tooManyLabels (capacity : Nat)
  | stackDamaged (role : StackRole) (findings : List GuardedStack.Finding)
  | stackUnderflow (instruction : Instruction) (offset : Nat)
  | returnWithoutCall (offset : Nat)
  | callsTooDeep (offset depth : Nat)
  | noRegister (index available : Nat)
  | noMemory (index : Int) (available : Nat)
  | noPixel (index : Int) (available : Nat)
  /-- An immediate operand names no cell. -/
  | notACell (value : Int32)
  /-- Control left the program. -/
  | targetOutside (target : Int) (source : Nat)
  /-- A program ends within an instruction. -/
  | unexpectedEnd (offset requested available : Nat)
  | invalidInstruction (byte : UInt8) (offset : Nat)
  | invalidMode (instruction : Instruction) (mode : Mode) (offset : Nat)
  /-- A branch to the distance zero, which stands for a label that was not found. -/
  | unresolvedBranch (instruction : Instruction) (offset : Nat)
  | divisionByZero (offset : Nat)
  | aborted (offset : Nat)
  | notANumber (text : String)
  deriving Repr, DecidableEq

namespace Fault

/-- Bytes as a list of two-digit numbers. -/
def byteList (bytes : List UInt8) : String :=
  "[" ++ ", ".intercalate (bytes.map fun b => Text.upperHex 2 b.toNat) ++ "]"

def place (instruction : Instruction) (offset : Nat) : String :=
  instruction.mnemonic ++ " at offset " ++ Text.offset offset

def outOf (available : Nat) (unit : String) : String :=
  " out of range (" ++ Text.decimal available ++ " " ++ unit ++ ")"

def message : Fault → String
  | usage reason => "usage: " ++ reason
  | truncatedHeader needed actual =>
    "truncated header: need " ++ Text.decimal needed ++ " bytes, file has " ++ Text.decimal actual
  | badMagic found expected =>
    "bad magic " ++ byteList found ++ ", expected " ++ byteList expected
  | unsupportedVersion found supported =>
    "unsupported binary version " ++ Text.decimal found ++ " (this tool reads up to " ++
      Text.decimal supported ++ ")"
  | file path cause => "io error on '" ++ path ++ "': " ++ cause.message
  | output cause => "output error: " ++ cause.message
  | input cause => "input error: " ++ cause.message
  | tooLarge quantity limit => quantity ++ " exceeds the limit of " ++ Text.decimal limit
  | allocation purpose cells =>
    "cannot allocate " ++ Text.decimal cells ++ " cells for " ++ purpose
  | bodyTooLong needed capacity =>
    "output buffer overflow: " ++ Text.decimal needed ++ " bytes needed, capacity is " ++
      Text.decimal capacity
  | tooManyLabels capacity => "label table is full (" ++ Text.decimal capacity ++ " labels)"
  | stackDamaged role findings =>
    role.name ++ " stack corrupted: " ++ GuardedStack.Finding.summary findings
  | stackUnderflow instruction offset => place instruction offset ++ ": stack underflow"
  | returnWithoutCall offset => place .ret offset ++ " without matching CALL"
  | callsTooDeep offset depth =>
    place .call offset ++ ": call depth " ++ Text.decimal depth ++ " exceeds limit"
  | noRegister index available =>
    "register index " ++ Text.decimal index ++ outOf available "registers"
  | noMemory index available => "memory index " ++ Text.signed index ++ outOf available "cells"
  | noPixel index available => "video index " ++ Text.signed index ++ outOf available "cells"
  | notACell value => "immediate operand " ++ Text.signed value.toInt ++ " is not addressable"
  | targetOutside target source =>
    "instruction pointer " ++ Text.signed target ++ " out of range after instruction at " ++
      Text.offset source
  | unexpectedEnd offset requested available =>
    "unexpected end of bytecode at " ++ Text.offset offset ++ ": requested " ++
      Text.decimal requested ++ " bytes, " ++ Text.decimal available ++ " available"
  | invalidInstruction byte offset =>
    "invalid instruction 0x" ++ Text.hex 2 byte.toNat ++ " at offset " ++ Text.offset offset
  | invalidMode instruction mode offset =>
    place instruction offset ++ " does not accept addressing mode " ++
      Text.decimal mode.number.toNat
  | unresolvedBranch instruction offset =>
    place instruction offset ++ " has an unresolved (zero) displacement"
  | divisionByZero offset => "division by zero at offset " ++ Text.offset offset
  | aborted offset => "program aborted at offset " ++ Text.offset offset
  | notANumber text => "invalid input " ++ Text.quote text ++ ": expected an integer"

end Fault

end StackMachine
