import StackMachine.Machine
import StackMachine.Proofs.GuardedStack.Holds

namespace StackMachine

structure PlainStore where
  data : List Int32
  calls : List Int64
  cells : Cells
  screen : Screen
  deriving Repr, DecidableEq

/-- The store holds a plain one, in two stacks that are whole. -/
structure Store.Holds (s : Store) (p : PlainStore) : Prop where
  data : s.data.Holds (p.data.map Int32.toInt64)
  calls : s.calls.Holds p.calls
  cells : s.cells = p.cells
  screen : s.screen = p.screen

/-- A list with two inputs has one on top and one below. -/
theorem exists_cons_cons {l : List Int32} (h : 2 ≤ l.length) : ∃ b a rest, l = b :: a :: rest := by
  obtain ⟨b, l, rfl⟩ := List.exists_cons_of_length_pos (Nat.lt_of_lt_of_le Nat.zero_lt_two h)
  obtain ⟨a, rest, rfl⟩ := List.exists_cons_of_length_pos (Nat.lt_of_succ_lt_succ h)
  exact ⟨b, a, rest, rfl⟩

theorem indexIn?_eq_some_iff {size : Nat} {index : Int} {i : Nat} :
    indexIn? size index = some i ↔ index = i ∧ i < size := by
  unfold indexIn?
  split <;> simp only [Option.some.injEq, reduceCtorEq, false_iff] <;> omega

namespace PlainStore

/-- Where control goes and what is left, or a fault. -/
abbrev Effect := Except Fault (Flow × PlainStore)

def lacking (d : Decoded) : Effect :=
  .error (.stackUnderflow d.instruction d.offset)

def push (p : PlainStore) (value : Except Fault Int32) : Effect := do
  let value ← value
  .ok (.next, { p with data := value :: p.data })

def pop (d : Decoded) (p : PlainStore) : Effect :=
  match p.data with
  | _ :: rest => .ok (.next, { p with data := rest })
  | [] => lacking d

def dup (d : Decoded) (p : PlainStore) : Effect :=
  match p.data with
  | value :: _ => p.push (.ok value)
  | [] => lacking d

/-- The cells after a value was put into the one that an operand names. -/
def assigned (cells : Cells) (operand : Operand) (value : Int32) : Except Fault Cells := do
  let cell ← cells.locate operand
  .ok (cells.set cell value)

def move (d : Decoded) (p : PlainStore) : Effect :=
  match p.data with
  | value :: rest =>
    match d.operand with
    | .immediate _ => .ok (.next, { p with data := rest })
    | operand => do
      let cells ← assigned p.cells operand value
      .ok (.next, { p with data := rest, cells })
  | [] => lacking d

def combine (d : Decoded) (operation : Int32 → Int32 → Int32) (p : PlainStore) : Effect :=
  match p.data with
  | b :: a :: rest => .ok (.next, { p with data := operation a b :: rest })
  | _ => lacking d

def divide (d : Decoded) (p : PlainStore) : Effect :=
  match p.data with
  | b :: _ => if b = 0 then .error (.divisionByZero d.offset) else p.combine d (· / ·)
  | [] => lacking d

def branch (d : Decoded) (test : Int32 → Int32 → Bool) (p : PlainStore) : Effect := do
  let distance ← Store.distance d d.payload
  match p.data with
  | a :: b :: rest => .ok (if test a b then .jump distance else .next, { p with data := rest })
  | _ => lacking d

def jump (d : Decoded) (p : PlainStore) : Effect := do
  let distance ← Store.distance d d.payload
  .ok (.jump distance, p)

def call (d : Decoded) (callDepth : Nat) (p : PlainStore) : Effect := do
  let distance ← Store.distance d d.payload
  if callDepth ≤ p.calls.length then .error (.callsTooDeep d.offset (p.calls.length + 1))
  else .ok (.jump distance, { p with calls := Int64.ofNat d.next :: p.calls })

def goBack (d : Decoded) (p : PlainStore) : Effect :=
  match p.calls with
  | target :: rest => .ok (.goto target.toInt, { p with calls := rest })
  | [] => .error (.returnWithoutCall d.offset)

def copyToRegister (d : Decoded) (p : PlainStore) : Effect :=
  match p.data with
  | value :: _ => do
    let registers ← Registers.set p.cells.registers d.payload value
    .ok (.next, { p with cells := { p.cells with registers } })
  | [] => lacking d

def setPixel (d : Decoded) (p : PlainStore) : Effect :=
  match p.data with
  | key :: value :: rest => do
    let screen ← p.screen.set key value
    .ok (.next, { p with data := value :: rest, screen })
  | _ => lacking d

def store (d : Decoded) (p : PlainStore) : Effect :=
  match p.data with
  | key :: value :: rest => do
    let cells ← assigned p.cells (.memory key) value
    .ok (.next, { p with data := value :: rest, cells })
  | _ => lacking d

/-- Replaces the key on top by the value that is found with it. -/
def lookUp (d : Decoded) (find : Int32 → Except Fault Int32) (p : PlainStore) : Effect :=
  match p.data with
  | key :: rest => push { p with data := rest } (find key)
  | [] => lacking d

/-- What an instruction does that does not use the console. -/
def effect (callDepth : Nat) (d : Decoded) (p : PlainStore) : Effect :=
  match d.instruction with
  | .halt => .ok (.halt, p)
  | .abort => .error (.aborted d.offset)
  | .push => p.push (p.cells.read d.operand)
  | .pop => p.pop d
  | .dup => p.dup d
  | .move => p.move d
  | .add => p.combine d (· + ·)
  | .sub => p.combine d (· - ·)
  | .mul => p.combine d (· * ·)
  | .div => p.divide d
  | .jump => p.jump d
  | .jumpGreater => p.branch d fun a b => b < a
  | .jumpLess => p.branch d fun a b => a < b
  | .jumpEqual => p.branch d fun a b => a = b
  | .jumpGreaterEqual => p.branch d fun a b => b ≤ a
  | .jumpLessEqual => p.branch d fun a b => a ≤ b
  | .call => p.call d callDepth
  | .ret => p.goBack d
  | .getRegister => p.push (Registers.get p.cells.registers d.payload)
  | .setRegister => p.copyToRegister d
  | .setPixel => p.setPixel d
  | .getPixel => p.lookUp d p.screen.get
  | .store => p.store d
  | .load => p.lookUp d fun key => p.cells.read (.memory key)
  | .print | .printChar | .read | .clear | .draw => lacking d

/-- The bytes that an instruction prints; `none` if it is not there to print. -/
def printed? (i : Instruction) (p : PlainStore) : Option (List UInt8) :=
  match i, p.data with
  | .print, value :: _ => some (Bytes.ofString (Text.signed value.toInt))
  | .printChar, value :: _ => some [value.toUInt32.toUInt8]
  | .clear, _ => some Console.clearScreen
  | .draw, _ => some p.screen.render
  | _, _ => none

/-- What an instruction does, and what it does to the console. -/
def execute (callDepth : Nat) (d : Decoded) (p : PlainStore) (c : Console) : Effect × Console :=
  if d.instruction = .read then
    match c.readNumber with
    | (.ok value, c) => (p.push (.ok value), c)
    | (.error fault, c) => (.error fault, c)
  else
    match p.printed? d.instruction with
    | some bytes =>
      match c.print bytes with
      | (.ok (), c) => (.ok (.next, p), c)
      | (.error fault, c) => (.error fault, c)
    | none => (p.effect callDepth d, c)

section Execute

variable {p q : PlainStore} {d : Decoded} {flow : Flow} {bytes : List UInt8} {callDepth : Nat}
  {c c' : Console}

/-- Only four of the instructions print. -/
theorem mem_of_printed (hb : p.printed? d.instruction = some bytes) :
    d.instruction ∈ [Instruction.print, .printChar, .clear, .draw] := by
  unfold printed? at hb
  split at hb <;> simp_all

/-- An instruction that prints is carried out if the console takes what it prints, and then it does
nothing else. -/
theorem execute_printed (hb : p.printed? d.instruction = some bytes) (callDepth : Nat)
    (c : Console) :
    p.execute callDepth d c = ((c.print bytes).1.map fun _ => (.next, p), (c.print bytes).2) := by
  have hi : d.instruction ≠ .read := by
    intro hi
    rw [hi] at hb
    cases hb
  simp only [execute, hi, hb, ↓reduceIte]
  rcases c.print bytes with ⟨fault | _, c'⟩ <;> rfl

/-- An instruction that is carried out pushes a number that was read, or it prints and does nothing
else, or it has an effect that does not hang on the console. -/
theorem execute_cases (h : p.execute callDepth d c = (.ok (flow, q), c')) :
    (d.instruction = .read ∧ ∃ value, p.push (.ok value) = .ok (flow, q)) ∨
    (d.instruction ∈ [Instruction.print, .printChar, .clear, .draw] ∧ flow = .next ∧ q = p) ∨
    p.effect callDepth d = .ok (flow, q) := by
  unfold execute at h
  split at h
  · rename_i hi
    split at h
    · exact .inl ⟨hi, _, congrArg Prod.fst h⟩
    · cases h
  · split at h
    · rename_i bytes hb
      split at h
      · obtain ⟨rfl, rfl⟩ := Prod.mk.inj (Except.ok.inj (congrArg Prod.fst h))
        exact .inr (.inl ⟨mem_of_printed hb, rfl, rfl⟩)
      · cases h
    · exact .inr (.inr (congrArg Prod.fst h))

end Execute

end PlainStore

end StackMachine
