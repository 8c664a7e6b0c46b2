import StackMachine.Decoded
import StackMachine.Machine.Screen

namespace StackMachine

structure Store where
  data : GuardedStack
  calls : GuardedStack
  cells : Cells
  screen : Screen
  deriving Repr, DecidableEq

inductive Flow where
  | next
  /-- To a distance from the next instruction. -/
  | jump (distance : Int32)
  | goto (target : Int)
  | halt
  deriving Repr, DecidableEq

/-- What is done to a store, with a value for what comes next or a fault. One that fails keeps what
it has done so far, so the order of its checks and its changes counts. -/
abbrev Action (α : Type) := EStateM Fault Store α

namespace Store

def refusal (d : Decoded) : GuardedStack.Failure → Fault
  | .underflow => .stackUnderflow d.instruction d.offset
  | .damaged findings => .stackDamaged .data findings

/-- Finds something out about a store. -/
def ask {α : Type} (question : Store → Except Fault α) : Action α := fun s =>
  match question s with
  | .ok a => .ok a s
  | .error fault => .error fault s

def push (d : Decoded) (value : Int32) : Action Unit := fun s =>
  match s.data.push value.toInt64 with
  | .ok data => .ok () { s with data }
  | .error failure => .error (refusal d failure) s

def pop (d : Decoded) : Action Int32 := fun s =>
  match s.data.pop with
  | .ok (word, data) => .ok word.toInt32 { s with data }
  | .error failure => .error (refusal d failure) s

/-- The value `depth` places below the top. -/
def peek (d : Decoded) (depth : Nat) : Action Int32 := fun s =>
  match s.data.peek depth with
  | .ok word => .ok word.toInt32 s
  | .error failure => .error (refusal d failure) s

def drop (d : Decoded) : Action Unit := do
  let _ ← pop d

/-- The value that an operand stands for is pushed. -/
def pushOperand (d : Decoded) (operand : Operand) : Action Unit := do
  let value ← ask fun s => s.cells.read operand
  push d value

def dup (d : Decoded) : Action Unit := do
  let value ← peek d 0
  push d value

def assign (operand : Operand) (value : Int32) : Action Unit := do
  let cell ← ask fun s => s.cells.locate operand
  modify fun s => { s with cells := s.cells.set cell value }

/-- The top value goes to a cell. An immediate operand names none, and the value is lost. -/
def moveTop (d : Decoded) (operand : Operand) : Action Unit := do
  let value ← peek d 0
  match operand with
  | .immediate _ => drop d
  | operand =>
    assign operand value
    drop d

/-- Replaces the two top values by what an operation makes of them, the lower one first. -/
def combine (d : Decoded) (operation : Int32 → Int32 → Int32) : Action Unit := do
  let b ← pop d
  let a ← pop d
  push d (operation a b)

/-- Division rounds toward zero. -/
def divide (d : Decoded) : Action Unit := do
  let divisor ← peek d 0
  if divisor = 0 then throw (.divisionByZero d.offset) else combine d (· / ·)

/-- The distance of a branch. Zero stands for a label that was not found. -/
def distance (d : Decoded) (target : Int32) : Except Fault Int32 :=
  if target = 0 then .error (.unresolvedBranch d.instruction d.offset) else .ok target

def jump (d : Decoded) (target : Int32) : Action Flow := do
  let distance ← ask fun _ => distance d target
  return .jump distance

/-- Takes the two top values and jumps if the upper one compares so to the lower one. -/
def branch (d : Decoded) (target : Int32) (test : Int32 → Int32 → Bool) : Action Flow := do
  let distance ← ask fun _ => distance d target
  let a ← pop d
  let b ← pop d
  return if test a b then .jump distance else .next

/-- The call stack remembers the next instruction. -/
def remember (d : Decoded) : Action Unit := fun s =>
  match s.calls.push (Int64.ofNat d.next) with
  | .ok calls => .ok () { s with calls }
  | .error .underflow => .error (.stackUnderflow d.instruction d.offset) s
  | .error (.damaged findings) => .error (.stackDamaged .call findings) s

/-- Remembers the next instruction and jumps, if not too many calls are open. -/
def call (d : Decoded) (target : Int32) (callDepth : Nat) : Action Flow := do
  let distance ← ask fun _ => distance d target
  let depth ← ask fun s => .ok s.calls.size.toNat
  if callDepth ≤ depth then throw (.callsTooDeep d.offset (depth + 1))
  else
    remember d
    return .jump distance

def goBack (d : Decoded) : Action Flow := fun s =>
  match s.calls.pop with
  | .ok (target, calls) => .ok (.goto target.toInt) { s with calls }
  | .error .underflow => .error (.returnWithoutCall d.offset) s
  | .error (.damaged findings) => .error (.stackDamaged .call findings) s

def pushRegister (d : Decoded) (index : Int32) : Action Unit := do
  let value ← ask fun s => Registers.get s.cells.registers index
  push d value

def copyToRegister (d : Decoded) (index : Int32) : Action Unit := do
  let value ← peek d 0
  let registers ← ask fun s => Registers.set s.cells.registers index value
  modify fun s => { s with cells := { s.cells with registers } }

def setPixel (d : Decoded) : Action Unit := do
  let key ← peek d 0
  let value ← peek d 1
  let screen ← ask fun s => s.screen.set key value
  modify fun s => { s with screen }
  drop d

def getPixel (d : Decoded) : Action Unit := do
  let key ← peek d 0
  let value ← ask fun s => s.screen.get key
  drop d
  push d value

def storeTop (d : Decoded) : Action Unit := do
  let key ← peek d 0
  let value ← peek d 1
  assign (.memory key) value
  drop d

def loadTop (d : Decoded) : Action Unit := do
  let key ← peek d 0
  let value ← ask fun s => s.cells.read (.memory key)
  drop d
  push d value

end Store

end StackMachine
