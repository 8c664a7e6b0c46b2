namespace StackMachine.Bytes

/-- The four bytes of a word, low byte first. -/
def ofWord (w : UInt32) : List UInt8 :=
  [w.toUInt8, (w >>> 8).toUInt8, (w >>> 16).toUInt8, (w >>> 24).toUInt8]

/-- The word with the given bytes, low byte first. -/
def word (a b c d : UInt8) : UInt32 :=
  a.toUInt32 ||| (b.toUInt32 <<< 8) ||| (c.toUInt32 <<< 16) ||| (d.toUInt32 <<< 24)

/-- The eight bytes of a double word, low byte first. -/
def ofDoubleWord (w : UInt64) : List UInt8 :=
  [w.toUInt8, (w >>> 8).toUInt8, (w >>> 16).toUInt8, (w >>> 24).toUInt8,
   (w >>> 32).toUInt8, (w >>> 40).toUInt8, (w >>> 48).toUInt8, (w >>> 56).toUInt8]

/-- The UTF-8 bytes of a text. -/
def ofChars (text : List Char) : List UInt8 :=
  text.flatMap String.utf8EncodeChar

def ofString (text : String) : List UInt8 :=
  ofChars text.toList

/-- The text with the given UTF-8 bytes; `none` if they are not UTF-8. -/
def text? (bytes : Array UInt8) : Option String :=
  String.fromUTF8? ⟨bytes⟩

/-- What is left of a text without its first `n` bytes; `none` if byte `n` is not the start of
a character. -/
def dropBytes? : Nat → List Char → Option (List Char)
  | 0, text => some text
  | _ + 1, [] => none
  | n + 1, c :: text =>
    if c.utf8Size ≤ n + 1 then dropBytes? (n + 1 - c.utf8Size) text else none

@[simp] theorem length_ofWord (w : UInt32) : (ofWord w).length = 4 := rfl

@[simp] theorem ofChars_append (s t : List Char) : ofChars (s ++ t) = ofChars s ++ ofChars t := by
  simp [ofChars]

end StackMachine.Bytes
