import StackMachine.Decoded
import StackMachine.Machine.Channel

namespace StackMachine

/-- What the first byte of an instruction says. -/
structure Opening where
  instruction : Instruction
  mode : Mode
  deriving Repr, DecidableEq

/-- Reads the first byte of an instruction. A mode other than the first one is refused on an
instruction without an operand. -/
def Opening.read (c : Cursor) : Except Fault (Opening × Cursor) := do
  let offset := c.position
  let (byte, c) ← c.byte
  let (opcode, number) := Instruction.splitByte byte
  match Instruction.ofOpcode? opcode with
  | none => .error (.invalidInstruction byte offset)
  | some instruction =>
    let mode := Mode.ofByte number
    if mode ≠ .immediate ∧ instruction.argument ≠ some .operand then
      .error (.invalidMode instruction mode offset)
    else .ok (⟨instruction, mode⟩, c)

/-- Reads the argument that the instruction table gives an instruction. -/
def Opening.finish (o : Opening) (offset : Nat) (c : Cursor) : Except Fault Decoded :=
  if o.instruction.argument.isSome then do
    let (payload, c) ← c.word
    .ok ⟨offset, o.instruction, o.mode, payload, c.position⟩
  else .ok ⟨offset, o.instruction, o.mode, 0, c.position⟩

theorem Opening.moved_of_read {c c' : Cursor} {o : Opening} (h : Opening.read c = .ok (o, c')) :
    Cursor.Moved 1 c c' := by
  cases hb : c.byte with
  | error fault => simp [Opening.read, hb, bind, Except.bind] at h
  | ok r =>
    obtain ⟨byte, c₁⟩ := r
    simp only [Opening.read, hb, bind, Except.bind] at h
    split at h
    · cases h
    · split at h
      · cases h
      · obtain ⟨-, rfl⟩ := Prod.mk.inj (Except.ok.inj h)
        exact Cursor.moved_of_byte hb

/-- A decoded instruction ends where its argument ends. -/
theorem Opening.next_of_finish {o : Opening} {offset : Nat} {c : Cursor} {d : Decoded}
    (h : o.finish offset c = .ok d) (hc : c.position ≤ c.bytes.size) :
    c.position ≤ d.next ∧ d.next ≤ c.bytes.size := by
  unfold Opening.finish at h
  split at h
  · cases hw : c.word with
    | error fault => simp [hw, bind, Except.bind] at h
    | ok r =>
      obtain ⟨payload, c₁⟩ := r
      simp only [hw, bind, Except.bind, Except.ok.injEq] at h
      obtain ⟨-, hp, hl⟩ := Cursor.moved_of_word hw
      subst h
      exact ⟨by simp only [hp]; omega, hl⟩
  · cases h
    exact ⟨Nat.le_refl _, hc⟩

namespace Decoded

def read (bytes : Array UInt8) (offset : Nat) : Except Fault Decoded := do
  let (opening, c) ← Opening.read ⟨bytes, offset⟩
  opening.finish offset c

/-- An instruction is not empty and ends within the program. -/
theorem lt_next_of_read {bytes : Array UInt8} {offset : Nat} {d : Decoded}
    (h : read bytes offset = .ok d) : offset < d.next ∧ d.next ≤ bytes.size := by
  cases ho : Opening.read ⟨bytes, offset⟩ with
  | error fault => simp [read, ho, bind, Except.bind] at h
  | ok r =>
    obtain ⟨opening, c⟩ := r
    simp only [read, ho, bind, Except.bind] at h
    obtain ⟨hb, hp, hl⟩ := Opening.moved_of_read ho
    have hc : c.position ≤ c.bytes.size := by rw [hb]; exact hl
    obtain ⟨h₁, h₂⟩ := Opening.next_of_finish h hc
    rw [hb] at h₂
    exact ⟨by simp only at hp; omega, h₂⟩

end Decoded

/-- The instructions of a program, up to its end or to the first one that cannot be decoded. -/
structure Disassembly where
  version : UInt32
  code : Array Decoded
  /-- Why the disassembly stopped before the end of the program. -/
  fault : Option Fault
  deriving Repr, DecidableEq

namespace Disassembly

/-- The instructions from the given offset on, after those already there. -/
def walk (bytes : Array UInt8) (offset : Nat) (code : Array Decoded) :
    Array Decoded × Option Fault :=
  if offset < bytes.size then
    match h : Decoded.read bytes offset with
    | .error fault => (code, some fault)
    | .ok d =>
      have := Decoded.lt_next_of_read h
      walk bytes d.next (code.push d)
  else (code, none)
termination_by bytes.size - offset

def ofProgram (p : Program) : Disassembly :=
  let (code, fault) := walk p.bytes p.entry #[]
  ⟨p.version, code, fault⟩

def format : Nat := 3

/-- The lines before the first instruction. -/
def header (version : UInt32) : String :=
  "# Binary file version: " ++ Text.decimal version.toNat ++ "\n" ++
    "# Disassembler version: " ++ Text.decimal format ++ "\n\n"

/-- The instructions decoded before the fault, if any, as text. -/
def text (d : Disassembly) : String :=
  header d.version ++ String.join (d.code.toList.map fun i => i.text ++ "\n")

/-- Writes instructions, one line each. Gives back those that were written. -/
def writeCode : List Decoded → Sink → Array Decoded → Array Decoded × Option Fault × Sink
  | [], sink, done => (done, none, sink)
  | i :: rest, sink, done =>
    match sink.write (Bytes.ofString (i.text ++ "\n")) with
    | (.ok (), sink) => writeCode rest sink (done.push i)
    | (.error cause, sink) => (done, some (.output cause), sink)

/-- Writes the text. A sink that is full ends the disassembly where it is. -/
def write (d : Disassembly) (sink : Sink) : Array Decoded × Option Fault × Sink :=
  match sink.write (Bytes.ofString (header d.version)) with
  | (.error cause, sink) => (#[], some (.output cause), sink)
  | (.ok (), sink) =>
    match writeCode d.code.toList sink #[] with
    | (done, some fault, sink) => (done, some fault, sink)
    | (done, none, sink) => (done, d.fault, sink)

end Disassembly

end StackMachine
