import StackMachine.Machine.Console
import StackMachine.Machine.Store

namespace StackMachine

structure Machine where
  program : Program
  /-- The greatest number of open calls. -/
  callDepth : Nat
  /-- The offset of the next instruction. -/
  ip : Nat
  store : Store
  console : Console
  deriving Repr, DecidableEq

inductive Advance where
  /-- The machine moved on by this distance. -/
  | shift (distance : Int)
  | halt
  deriving Repr, DecidableEq

/-- What an observer of a machine can see. -/
inductive Event where
  | damaged (role : StackRole) (stack : GuardedStack)
  /-- An instruction was carried out; then the stacks had so many entries. -/
  | executed (instruction : Instruction) (offset operands calls : Nat)
  deriving Repr, DecidableEq

structure Report where
  machine : Machine
  result : Except Fault Advance
  event : Option Event

namespace Machine

/-- The values that the first memory cells start with. -/
def environment (sizes : Sizes) : List Nat :=
  [sizes.memory, sizes.screenWidth, sizes.screenHeight, Screen.paletteBytes.size]

/-- Memory starts with the environment, as far as there is room for it. -/
def seed (memory : Array Int32) (values : List Nat) : Array Int32 :=
  values.zipIdx.foldl (fun memory (value, i) => memory.setIfInBounds i (Int32.ofNat value)) memory

/-- A machine of the given sizes at the start of a program. -/
def start (program : Program) (sizes : Sizes) (console : Console) : Except Fault Machine := do
  sizes.validate
  let memory ← zeroCells "memory" sizes.memory
  let registers ← Registers.make sizes.registers
  let screen ← Screen.make sizes.screenWidth sizes.screenHeight
  let store : Store :=
    { data := .empty (UInt64.ofNat sizes.dataSlots)
      calls := .empty (UInt64.ofNat sizes.callSlots)
      cells := ⟨registers, seed memory (environment sizes)⟩
      screen }
  .ok ⟨program, sizes.callDepth, program.entry, store, console⟩

/-- How carrying out an instruction ended, and what it left behind. -/
structure Outcome where
  result : Except Fault Flow
  store : Store
  console : Console

/-- An instruction that does not use the console. -/
def quiet (action : Action Flow) (s : Store) (c : Console) : Outcome :=
  match action s with
  | .ok flow s => ⟨.ok flow, s, c⟩
  | .error fault s => ⟨.error fault, s, c⟩

/-- Goes on with the next instruction. -/
def onward (action : Action Unit) (s : Store) (c : Console) : Outcome :=
  quiet (do action; return .next) s c

/-- Prints bytes and goes on with the next instruction. -/
def printing (bytes : Action (List UInt8)) (s : Store) (c : Console) : Outcome :=
  match bytes s with
  | .error fault s => ⟨.error fault, s, c⟩
  | .ok bytes s =>
    match c.print bytes with
    | (.ok (), c) => ⟨.ok .next, s, c⟩
    | (.error fault, c) => ⟨.error fault, s, c⟩

def reading (d : Decoded) (s : Store) (c : Console) : Outcome :=
  match c.readNumber with
  | (.ok value, c) => onward (Store.push d value) s c
  | (.error fault, c) => ⟨.error fault, s, c⟩

/-- How an instruction is carried out, with the kind of argument that it is given. -/
structure Handler where
  argument : Option ArgumentKind
  act : Decoded → Store → Console → Outcome

namespace Handler

def plain (act : Decoded → Store → Console → Outcome) : Handler :=
  ⟨none, act⟩

def withOperand (act : Decoded → Operand → Store → Console → Outcome) : Handler :=
  ⟨some .operand, fun d => act d (.ofPayload d.mode d.payload)⟩

def withDisplacement (act : Decoded → Int32 → Store → Console → Outcome) : Handler :=
  ⟨some .displacement, fun d => act d d.payload⟩

def withRegister (act : Decoded → Int32 → Store → Console → Outcome) : Handler :=
  ⟨some .register, fun d => act d d.payload⟩

end Handler

def handler (callDepth : Nat) : Instruction → Handler
  | .halt => .plain fun _ => quiet (return .halt)
  | .abort => .plain fun d => quiet (throw (.aborted d.offset))
  | .push => .withOperand fun d operand => onward (Store.pushOperand d operand)
  | .pop => .plain fun d => onward (Store.drop d)
  | .dup => .plain fun d => onward (Store.dup d)
  | .move => .withOperand fun d operand => onward (Store.moveTop d operand)
  | .add => .plain fun d => onward (Store.combine d (· + ·))
  | .sub => .plain fun d => onward (Store.combine d (· - ·))
  | .mul => .plain fun d => onward (Store.combine d (· * ·))
  | .div => .plain fun d => onward (Store.divide d)
  | .jump => .withDisplacement fun d target => quiet (Store.jump d target)
  | .jumpGreater =>
    .withDisplacement fun d target => quiet (Store.branch d target fun a b => b < a)
  | .jumpLess => .withDisplacement fun d target => quiet (Store.branch d target fun a b => a < b)
  | .jumpEqual => .withDisplacement fun d target => quiet (Store.branch d target fun a b => a = b)
  | .jumpGreaterEqual =>
    .withDisplacement fun d target => quiet (Store.branch d target fun a b => b ≤ a)
  | .jumpLessEqual =>
    .withDisplacement fun d target => quiet (Store.branch d target fun a b => a ≤ b)
  | .call => .withDisplacement fun d target => quiet (Store.call d target callDepth)
  | .ret => .plain fun d => quiet (Store.goBack d)
  | .getRegister => .withRegister fun d index => onward (Store.pushRegister d index)
  | .setRegister => .withRegister fun d index => onward (Store.copyToRegister d index)
  | .print => .plain fun d => printing do
    let value ← Store.peek d 0
    return Bytes.ofString (Text.signed value.toInt)
  | .printChar => .plain fun d => printing do
    let value ← Store.peek d 0
    return [value.toUInt32.toUInt8]
  | .read => .plain reading
  | .setPixel => .plain fun d => onward (Store.setPixel d)
  | .getPixel => .plain fun d => onward (Store.getPixel d)
  | .store => .plain fun d => onward (Store.storeTop d)
  | .load => .plain fun d => onward (Store.loadTop d)
  | .clear => .plain fun _ => printing (return Console.clearScreen)
  | .draw => .plain fun _ => printing do
    let s ← get
    return s.screen.render

def execute (callDepth : Nat) (d : Decoded) : Store → Console → Outcome :=
  (handler callDepth d.instruction).act d

/-- The first stack with findings, its name and what was found. -/
def damage? (s : Store) : Option (StackRole × GuardedStack × List GuardedStack.Finding) :=
  let findings := s.data.status
  if findings.isEmpty then
    let findings := s.calls.status
    if findings.isEmpty then none else some (.call, s.calls, findings)
  else some (.data, s.data, findings)

/-- Where control goes; nowhere after the last instruction of a run. -/
def target? (d : Decoded) : Flow → Option Int
  | .next => some d.next
  | .jump distance => some (d.next + distance.toInt)
  | .goto target => some target
  | .halt => none

def advance (m : Machine) (target : Option Int) : Except Fault Advance × Machine :=
  match target with
  | none => (.ok .halt, m)
  | some target =>
    if target < Program.headerSize ∨ (m.program.size : Int) ≤ target then
      (.error (.targetOutside target m.ip), m)
    else (.ok (.shift (target - m.ip)), { m with ip := target.toNat })

/-- The byte at a place in the program, and the next place. -/
def readByte (m : Machine) (place : Nat) : Except Fault (UInt8 × Nat) := do
  let (byte, c) ← Cursor.byte ⟨m.program.bytes, place⟩
  .ok (byte, c.position)

def readWord (m : Machine) (place : Nat) : Except Fault (Int32 × Nat) := do
  let (word, c) ← Cursor.word ⟨m.program.bytes, place⟩
  .ok (word, c.position)

/-- Decodes the instruction that a machine stands at. Its inputs have to be there before the
argument that its handler is given is read. -/
def fetch (m : Machine) : Except Fault Decoded := do
  let (byte, place) ← m.readByte m.ip
  let (opcode, number) := Instruction.splitByte byte
  match Instruction.ofOpcode? opcode with
  | none => .error (.invalidInstruction byte m.ip)
  | some i =>
    let mode := Mode.ofByte number
    if number ≠ 0 ∧ i.argument ≠ some .operand then .error (.invalidMode i mode m.ip)
    else if m.store.data.size.toNat < i.inputs then .error (.stackUnderflow i m.ip)
    else
      match (handler m.callDepth i).argument with
      | none => .ok ⟨m.ip, i, mode, 0, place⟩
      | some _ => do
        let (payload, place) ← m.readWord place
        .ok ⟨m.ip, i, mode, payload, place⟩

/-- Checks both stacks, decodes the instruction that the machine stands at, carries it out, and
moves on. A step that fails leaves the machine where it was, with what the instruction did up to the
fault. If an instruction was carried out but leads out of the program, the machine stays where it
is, too. -/
def step (m : Machine) : Report :=
  match damage? m.store with
  | some (role, stack, findings) =>
    ⟨m, .error (.stackDamaged role findings), some (.damaged role stack)⟩
  | none =>
    match m.fetch with
    | .error fault => ⟨m, .error fault, none⟩
    | .ok d =>
      match execute m.callDepth d m.store m.console with
      | ⟨.error fault, store, console⟩ => ⟨{ m with store, console }, .error fault, none⟩
      | ⟨.ok flow, store, console⟩ =>
        let event :=
          .executed d.instruction d.offset store.data.size.toNat store.calls.size.toNat
        let (result, m) := advance { m with store, console } (target? d flow)
        ⟨m, result, some event⟩

/-- Takes at most `count` steps, and none after a halt or a fault. What an observer makes of
the reports so far is handed from step to step. -/
def observe {σ : Type} (see : σ → Report → σ) : Nat → Machine → σ → Machine × σ
  | 0, m, seen => (m, seen)
  | count + 1, m, seen =>
    match m.step with
    | ⟨m, .ok (.shift distance), event⟩ =>
      observe see count m (see seen ⟨m, .ok (.shift distance), event⟩)
    | report => (report.machine, see seen report)

structure Run where
  machine : Machine
  /-- How the run ended; `none` if it did not end within the steps allowed. -/
  result : Option (Except Fault Unit)
  events : Array Event

def record (seen : Array Event × Option (Except Fault Advance)) (report : Report) :
    Array Event × Option (Except Fault Advance) :=
  (seen.1 ++ report.event.toList, some report.result)

def ending : Option (Except Fault Advance) → Option (Except Fault Unit)
  | some (.ok .halt) => some (.ok ())
  | some (.error fault) => some (.error fault)
  | some (.ok (.shift _)) | none => none

/-- Runs a machine for at most `count` steps. What was printed is flushed at the end, and if
that fails, it is the result. -/
def run (count : Nat) (m : Machine) : Run :=
  let (m, events, last) := m.observe record count (#[], none)
  match ending last, m.console.flush with
  | some _, .error fault => ⟨m, some (.error fault), events⟩
  | result, _ => ⟨m, result, events⟩

end Machine

end StackMachine
