import StackMachine.Text.Pad

namespace StackMachine.Text

/-- The digits of a number in the given base, with leading zeros up to the given width. -/
def digits (base width n : Nat) : String :=
  padLeft '0' width (String.ofList (Nat.toDigits base n))

def decimal (n : Nat) : String :=
  n.repr

/-- A decimal number with a minus sign where it is negative. -/
def signed (i : Int) : String :=
  if i < 0 then "-" ++ decimal i.natAbs else decimal i.natAbs

def hex (width n : Nat) : String :=
  digits 16 width n

def upperHex (width n : Nat) : String :=
  (hex width n).map Char.toUpper

/-- An offset in a program, as messages show it. -/
def offset (n : Nat) : String :=
  "0x" ++ hex 0 n

/-- The number that a list of decimal digits stands for. -/
def natOfDigits? (text : List Char) : Option Nat :=
  if text.isEmpty || !text.all Char.isDigit then none else some (Nat.ofDigitChars 10 text 0)

/-- A decimal number with at most one sign in front. -/
def int? : List Char → Option Int
  | '-' :: digits => (natOfDigits? digits).map fun n => -(n : Int)
  | '+' :: digits => (natOfDigits? digits).map Int.ofNat
  | digits => (natOfDigits? digits).map Int.ofNat

/-- A decimal number within the range of 32-bit words. -/
def int32? (text : List Char) : Option Int32 :=
  match int? text with
  | some i => if -0x80000000 ≤ i ∧ i < 0x80000000 then some (Int32.ofInt i) else none
  | none => none

/-- A decimal number without a minus sign, within the range of unsigned 64-bit words. -/
def count? (text : List Char) : Option Nat :=
  let digits := match text with
    | '+' :: digits => digits
    | _ => text
  match natOfDigits? digits with
  | some n => if n < 0x10000000000000000 then some n else none
  | none => none

end StackMachine.Text
