import StackMachine.Bytes

namespace StackMachine.Fnv

/-- The 64-bit FNV-1a hash of no bytes. -/
def start : UInt64 := 0xcbf29ce484222325

def prime : UInt64 := 0x100000001b3

def addByte (state : UInt64) (byte : UInt8) : UInt64 :=
  (state ^^^ byte.toUInt64) * prime

def addBytes (state : UInt64) (bytes : List UInt8) : UInt64 :=
  bytes.foldl addByte state

/-- Takes in the eight bytes of a double word, low byte first. -/
def addDoubleWord (state word : UInt64) : UInt64 :=
  let state := addByte state word.toUInt8
  let state := addByte state (word >>> 8).toUInt8
  let state := addByte state (word >>> 16).toUInt8
  let state := addByte state (word >>> 24).toUInt8
  let state := addByte state (word >>> 32).toUInt8
  let state := addByte state (word >>> 40).toUInt8
  let state := addByte state (word >>> 48).toUInt8
  addByte state (word >>> 56).toUInt8

def ofChars (text : List Char) : UInt64 :=
  addBytes start (Bytes.ofChars text)

theorem addDoubleWord_eq (state word : UInt64) :
    addDoubleWord state word = addBytes state (Bytes.ofDoubleWord word) := rfl

theorem addBytes_append (state : UInt64) (a b : List UInt8) :
    addBytes state (a ++ b) = addBytes (addBytes state a) b := by
  simp [addBytes]

end StackMachine.Fnv
