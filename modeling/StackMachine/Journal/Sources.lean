import StackMachine.Assembly
import StackMachine.Disassembly
import StackMachine.GuardedStack.Dump
import StackMachine.Journal
import StackMachine.Machine

namespace StackMachine

open Journal

def Warning.record (w : Warning) : Record :=
  ⟨.warning, "assembler", w.message⟩

def Draft.summary (d : Draft) : Record :=
  ⟨.status, "assembler",
    Text.decimal d.body.size ++ " bytes, " ++ Text.decimal d.labels.size ++ " labels, " ++
      Text.decimal d.warnings.size ++ " warnings"⟩

/-- All that an assembly has to say: its remarks and, if it was finished, a summary. -/
def Draft.records (d : Draft) (finished : Bool) : List Record :=
  d.warnings.toList.map Warning.record ++ if finished then [d.summary] else []

def traceOffset (offset : Nat) : String :=
  "0x" ++ Text.hex 4 offset

def Decoded.record (d : Decoded) : Record :=
  ⟨.status, "disasm", traceOffset d.offset ++ " " ++ d.instruction.mnemonic⟩

/-- The trace of an instruction that was carried out, or the dump of a damaged stack. -/
def Event.record : Event → Record
  | damaged role stack => ⟨.error, "vm", stack.dump role.name⟩
  | executed instruction offset operands calls =>
    ⟨.status, "vm",
      traceOffset offset ++ " " ++ Text.padRight ' ' 5 instruction.mnemonic ++
        " stack=" ++ Text.decimal operands ++ " calls=" ++ Text.decimal calls⟩

def Event.level : Event → Level
  | damaged .. => .error
  | executed .. => .status

/-- The records of those events that get through a threshold. -/
def Event.records (threshold : Level) (events : Array Event) : List Record :=
  (events.toList.filter fun event => threshold.admits event.level).map Event.record

/-- The traces of instructions that were written out, if they get through a threshold. -/
def Decoded.records (threshold : Level) (code : Array Decoded) : List Record :=
  if threshold.admits .status then code.toList.map Decoded.record else []

end StackMachine
