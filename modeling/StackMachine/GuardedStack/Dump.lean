import StackMachine.GuardedStack

namespace StackMachine.GuardedStack

def dumpedSlots : Nat := 64

def wordText (w : UInt64) : String :=
  "0x" ++ Text.upperHex 16 w.toNat

/-- The line of a dump for one slot; a star marks a live one. -/
def slotLine (size : Nat) (index : Nat) (word : Int64) : String :=
  let mark := if index < size then "*" else " "
  let kind := if word = poison then "POISON" else "VALUE "
  "\t\t[" ++ Text.digits 10 4 index ++ "]" ++ mark ++ "= (" ++ kind ++ ") " ++
    wordText word.toUInt64 ++ " " ++ Text.signed word.toInt

def dumpLines (s : GuardedStack) (name : String) : List String :=
  let findings := s.status
  let slots := (s.buffer.extract 1 (s.buffer.size - 1)).toList
  ["----- " ++ name ++ " stack dump -----",
   "\tStatus: " ++ if findings.isEmpty then "OK" else "CORRUPT"] ++
  findings.map (fun f => "\t\t" ++ f.description) ++
  ["\tLeft canary  = " ++ wordText s.leftGuard,
   "\tRight canary = " ++ wordText s.rightGuard,
   "\tCapacity     = " ++ Text.decimal s.capacity.toNat,
   "\tSize         = " ++ Text.decimal s.size.toNat,
   "\tBuffer       = " ++ Text.decimal s.buffer.size ++ " words"] ++
  (s.buffer[0]?.map fun w => "\t\t[----] = " ++ wordText w.toUInt64).toList ++
  (slots.take dumpedSlots).mapIdx (slotLine s.size.toNat) ++
  (if dumpedSlots < s.capacity.toNat then
    ["\t\t... " ++ Text.decimal (s.capacity.toNat - dumpedSlots) ++ " more"] else []) ++
  (if 1 < s.buffer.size then
    (s.buffer.back?.map fun w => "\t\t[####] = " ++ wordText w.toUInt64).toList else []) ++
  ["\tHash      = " ++ wordText s.hash,
   "\tEst. hash = " ++ wordText s.computeHash]

def dump (s : GuardedStack) (name : String) : String :=
  String.join ((s.dumpLines name).map (· ++ "\n"))

def brief (s : GuardedStack) : String :=
  let content := ", ".intercalate (s.toList.map fun w => Text.signed w.toInt)
  "ProtectedStack \x7b size: " ++ Text.decimal s.size.toNat ++
    ", capacity: " ++ Text.decimal s.capacity.toNat ++
    ", content: [" ++ content ++
    "], status: StackStatus(" ++ Text.decimal (Finding.number s.status) ++ ") \x7d"

end StackMachine.GuardedStack
