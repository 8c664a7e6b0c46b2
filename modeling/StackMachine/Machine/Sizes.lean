import StackMachine.Machine.Cells

namespace StackMachine

structure Sizes where
  registers : Nat := 26
  memory : Nat := 1024
  screenWidth : Nat := 64
  screenHeight : Nat := 32
  /-- The slots that the data stack starts with. It grows as needed. -/
  dataSlots : Nat := 1024
  callSlots : Nat := 16
  /-- The greatest number of calls that may be open at a time. -/
  callDepth : Nat := 0x10000
  deriving Repr, DecidableEq

namespace Sizes

def maxSlots : Nat := 0x1000000

def maxCount : Nat := 0xFFFFFFFFFFFFFFFF

/-- The count of screen cells; `none` if it cannot be counted. -/
def screenCells (width height : Nat) : Option Nat :=
  if width * height ≤ maxCount then some (width * height) else none

/-- What is limited, its count and the limit, in the order of the checks. -/
def limits (s : Sizes) : List (String × Option Nat × Nat) :=
  [("register count", some s.registers, maxCells),
   ("ram size", some s.memory, maxCells),
   ("video width", some s.screenWidth, maxCells),
   ("video height", some s.screenHeight, maxCells),
   ("video cell count", screenCells s.screenWidth s.screenHeight, maxCells),
   ("stack capacity", some s.dataSlots, maxSlots),
   ("call stack capacity", some s.callSlots, maxSlots)]

/-- The first limit that is not kept. -/
def excess? (s : Sizes) : Option Fault :=
  s.limits.findSome? fun (quantity, count, limit) =>
    match count with
    | some n => if n ≤ limit then none else some (.tooLarge quantity limit)
    | none => some (.tooLarge quantity limit)

def validate (s : Sizes) : Except Fault Unit :=
  match s.excess? with
  | some fault => .error fault
  | none => .ok ()

end Sizes

end StackMachine
