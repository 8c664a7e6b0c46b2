import StackMachine.Fault

namespace StackMachine

/-- A header with a body of instructions behind it. Offsets count from the start of the header. -/
structure Program where
  bytes : Array UInt8
  header_le : 16 ≤ bytes.size
  deriving Repr, DecidableEq

namespace Program

def headerSize : Nat := 16

def magic : List UInt8 := [0x53, 0x50, 0x55, 0x42]

/-- The newest version of the format, which is the one that is written. -/
def newest : UInt32 := 3

def header : List UInt8 :=
  magic ++ Bytes.ofWord newest ++ List.replicate 8 0

/-- The program with the given body and a header of the newest version. -/
def ofBody (body : Array UInt8) : Program :=
  ⟨header.toArray ++ body, by simp [header, magic]⟩

/-- The version that a header states. -/
def versionOf (bytes : Array UInt8) : UInt32 :=
  Bytes.word (bytes.getD 4 0) (bytes.getD 5 0) (bytes.getD 6 0) (bytes.getD 7 0)

/-- The program stored in a file. The header has to be complete, with the magic bytes and a
version that is known; older versions are accepted. -/
def ofBytes (bytes : Array UInt8) : Except Fault Program :=
  if h : 16 ≤ bytes.size then
    let found := (bytes.extract 0 4).toList
    if found = magic then
      if versionOf bytes ≤ newest then .ok ⟨bytes, h⟩
      else .error (.unsupportedVersion (versionOf bytes).toNat newest.toNat)
    else .error (.badMagic found magic)
  else .error (.truncatedHeader headerSize bytes.size)

def version (p : Program) : UInt32 :=
  versionOf p.bytes

def body (p : Program) : Array UInt8 :=
  p.bytes.extract headerSize p.bytes.size

def entry (_ : Program) : Nat :=
  headerSize

def size (p : Program) : Nat :=
  p.bytes.size

def isEmpty (p : Program) : Bool :=
  p.size ≤ headerSize

end Program

/-- A place in a sequence of bytes, to read on from. -/
structure Cursor where
  bytes : Array UInt8
  position : Nat
  deriving Repr

namespace Cursor

def atEnd (c : Cursor) : Bool :=
  c.bytes.size ≤ c.position

def take (c : Cursor) (count : Nat) : Except Fault (Array UInt8 × Cursor) :=
  if c.position + count ≤ c.bytes.size then
    .ok (c.bytes.extract c.position (c.position + count),
      { c with position := c.position + count })
  else .error (.unexpectedEnd c.position count (c.bytes.size - c.position))

def byte (c : Cursor) : Except Fault (UInt8 × Cursor) := do
  let (bytes, c) ← c.take 1
  .ok (bytes.getD 0 0, c)

/-- Reads a word, low byte first. -/
def word (c : Cursor) : Except Fault (Int32 × Cursor) := do
  let (bytes, c) ← c.take 4
  let word := Bytes.word (bytes.getD 0 0) (bytes.getD 1 0) (bytes.getD 2 0) (bytes.getD 3 0)
  .ok (word.toInt32, c)

/-- A cursor has moved over `count` bytes of the same sequence. -/
def Moved (count : Nat) (c c' : Cursor) : Prop :=
  c'.bytes = c.bytes ∧ c'.position = c.position + count ∧ c'.position ≤ c.bytes.size

theorem moved_of_take {c c' : Cursor} {count : Nat} {bytes : Array UInt8}
    (h : c.take count = .ok (bytes, c')) : Moved count c c' := by
  unfold take at h
  split at h
  · rename_i hle
    obtain ⟨-, rfl⟩ := Prod.mk.inj (Except.ok.inj h)
    exact ⟨rfl, rfl, hle⟩
  · cases h

theorem moved_of_byte {c c' : Cursor} {b : UInt8} (h : c.byte = .ok (b, c')) :
    Moved 1 c c' := by
  cases ht : c.take 1 with
  | error fault => simp [byte, ht, bind, Except.bind] at h
  | ok r =>
    simp only [byte, ht, bind, Except.bind, Except.ok.injEq, Prod.mk.injEq] at h
    exact h.2 ▸ moved_of_take ht

theorem moved_of_word {c c' : Cursor} {w : Int32} (h : c.word = .ok (w, c')) :
    Moved 4 c c' := by
  cases ht : c.take 4 with
  | error fault => simp [word, ht, bind, Except.bind] at h
  | ok r =>
    simp only [word, ht, bind, Except.bind, Except.ok.injEq, Prod.mk.injEq] at h
    exact h.2 ▸ moved_of_take ht

end Cursor

end StackMachine
