import StackMachine.Fnv
import StackMachine.Text.Number

namespace StackMachine

/-- A growable stack of double words that notices when its storage was damaged. Sizes are unsigned
64-bit words, so its checks have an answer for all values that the fields can hold. -/
structure GuardedStack where
  leftGuard : UInt64
  /-- A guard word, the slots, a guard word. -/
  buffer : Array Int64
  /-- The number of live slots. -/
  size : UInt64
  capacity : UInt64
  hash : UInt64
  rightGuard : UInt64
  deriving Repr, DecidableEq

namespace GuardedStack

def guardWord : UInt64 := 0x0BADCAFE0BADCAFE

/-- The value of the slots that hold nothing. -/
def poison : Int64 := (0xDEADBABEC0FEBEEF : UInt64).toInt64

inductive Finding where
  /-- The size is greater than the capacity. -/
  | oversize
  /-- The buffer does not have as many words as the capacity asks for. -/
  | buffer
  | leftGuard
  | rightGuard
  | bufferStart
  | bufferEnd
  | hash
  deriving Repr, DecidableEq

namespace Finding

/-- The place of a finding in a status number. -/
def bit : Finding → Nat
  | oversize => 1
  | buffer => 2
  | leftGuard => 3
  | rightGuard => 4
  | bufferStart => 5
  | bufferEnd => 6
  | hash => 7

def description : Finding → String
  | oversize => "size is bigger than capacity"
  | buffer => "buffer is missing or shorter than capacity"
  | leftGuard => "left canary is corrupt"
  | rightGuard => "right canary is corrupt"
  | bufferStart => "buffer left canary is corrupt"
  | bufferEnd => "buffer right canary is corrupt"
  | hash => "hash mismatch"

def number (findings : List Finding) : Nat :=
  findings.foldl (fun number f => number ||| 1 <<< f.bit) 0

def summary (findings : List Finding) : String :=
  if findings.isEmpty then "ok"
  else
    ", ".intercalate (findings.map description) ++
      " (status 0b" ++ Text.digits 2 8 (number findings) ++ ")"

end Finding

inductive Failure where
  | underflow
  | damaged (findings : List Finding)
  deriving Repr, DecidableEq

/-- A buffer with the given live words and the given number of dead slots. -/
def fill (live : Array Int64) (dead : Nat) : Array Int64 :=
  #[guardWord.toInt64] ++ live ++ Array.replicate dead poison ++ #[guardWord.toInt64]

def computeHash (s : GuardedStack) : UInt64 :=
  let header := [s.leftGuard, s.size, s.capacity, s.rightGuard].foldl Fnv.addDoubleWord Fnv.start
  s.buffer.foldl (fun state word => Fnv.addDoubleWord state word.toUInt64) header

def rehash (s : GuardedStack) : GuardedStack :=
  { s with hash := s.computeHash }

def empty (capacity : UInt64) : GuardedStack :=
  rehash ⟨guardWord, fill #[] capacity.toNat, 0, capacity, 0, guardWord⟩

/-- The live words, bottom first. There are none if the size reaches past the buffer. -/
def toList (s : GuardedStack) : List Int64 :=
  if s.size + 1 = 0 ∨ s.buffer.size < (s.size + 1).toNat then []
  else (s.buffer.extract 1 (s.size + 1).toNat).toList

/-- The finding, where the test fails. -/
def require (test : Bool) (finding : Finding) : List Finding :=
  if test then [] else [finding]

/-- Everything wrong with a stack; nothing for one that is whole. -/
def status (s : GuardedStack) : List Finding :=
  let fits := s.buffer.size == (s.capacity + 2).toNat
  require (s.size ≤ s.capacity) .oversize ++
  require fits .buffer ++
  require (s.leftGuard == guardWord) .leftGuard ++
  require (s.rightGuard == guardWord) .rightGuard ++
  require (!fits || s.buffer[0]? == some guardWord.toInt64) .bufferStart ++
  require (!fits || s.buffer.back? == some guardWord.toInt64) .bufferEnd ++
  require (s.hash == s.computeHash) .hash

def check (s : GuardedStack) : Except Failure Unit :=
  let findings := s.status
  if findings.isEmpty then .ok () else .error (.damaged findings)

/-- Moves the live words into a fresh buffer with the given number of slots. -/
def resize (s : GuardedStack) (capacity : UInt64) : GuardedStack :=
  let live := s.buffer.extract 1 (1 + (min s.size capacity).toNat)
  { s with buffer := fill live (capacity.toNat - live.size), capacity }

/-- Puts a word on top. A full stack with `n` slots first grows to `2 * n + 1`. -/
def push (s : GuardedStack) (word : Int64) : Except Failure GuardedStack := do
  s.check
  let s := if s.capacity < s.size + 1 then s.resize (s.capacity * 2 + 1) else s
  .ok (rehash { s with
    buffer := s.buffer.setIfInBounds (s.size + 1).toNat word, size := s.size + 1 })

/-- The word `depth` places below the top. -/
def peek (s : GuardedStack) (depth : Nat) : Except Failure Int64 := do
  s.check
  if s.size.toNat ≤ depth then .error .underflow
  else .ok (s.buffer.getD (s.size.toNat - depth) poison)

def top (s : GuardedStack) : Except Failure Int64 :=
  s.peek 0

/-- Takes the word on top. A stack with `n` slots of which less than a quarter is then live
shrinks to `n / 2 + 1`. -/
def pop (s : GuardedStack) : Except Failure (Int64 × GuardedStack) := do
  s.check
  if s.size = 0 then .error .underflow
  else
    let word := s.buffer.getD s.size.toNat poison
    let s := { s with buffer := s.buffer.setIfInBounds s.size.toNat poison, size := s.size - 1 }
    let s := if s.size * 4 < s.capacity then s.resize (s.capacity / 2 + 1) else s
    .ok (word, rehash s)

/-- Gives up the buffer. No operation works on a stack after that. -/
def destroy (s : GuardedStack) : GuardedStack :=
  { s with buffer := #[], size := 0, capacity := 0, hash := 0 }

end GuardedStack

end StackMachine
