import StackMachine.Operand

namespace StackMachine.Operand

/-- A reader takes something from the front of a text and leaves the rest. -/
abbrev Reader (α : Type) := List UInt8 → Option (α × List UInt8)

/-- The bytes of space, tab, newline, form feed and carriage return. -/
def isBlankByte (b : UInt8) : Bool :=
  b == 0x20 || b == 0x09 || b == 0x0A || b == 0x0C || b == 0x0D

def isDigitByte (b : UInt8) : Bool :=
  0x30 ≤ b && b ≤ 0x39

def skipBlanks (text : List UInt8) : List UInt8 :=
  text.dropWhile isBlankByte

/-- Takes the given character, which is ASCII. -/
def expect (c : Char) : List UInt8 → Option (List UInt8)
  | b :: rest => if b = c.toUInt8 then some rest else none
  | [] => none

def anyByte : Reader UInt8
  | b :: rest => some (b, rest)
  | [] => none

/-- Takes a register name: `R`, a capital letter and `X`. -/
def registerIndex (text : List UInt8) : Option (UInt8 × List UInt8) := do
  let text ← expect 'R' text
  let (letter, text) ← anyByte text
  let text ← expect 'X' text
  if 'A'.toUInt8 ≤ letter ∧ letter ≤ 'Z'.toUInt8 then some (letter - 'A'.toUInt8, text) else none

/-- Takes a sign, if there is one; a minus sign counts as `true`. -/
def sign : List UInt8 → Bool × List UInt8
  | [] => (false, [])
  | b :: rest =>
    if b = '-'.toUInt8 then (true, rest)
    else if b = '+'.toUInt8 then (false, rest)
    else (false, b :: rest)

/-- The word that digits stand for, as far as it fits in 32 bits. -/
def wordOfDigits (digits : List UInt8) : Int32 :=
  digits.foldl (fun value b => value * 10 + (b - 0x30).toUInt32.toInt32) 0

def number (text : List UInt8) : Option (Int32 × List UInt8) :=
  let (negative, text) := sign (skipBlanks text)
  let digits := text.takeWhile isDigitByte
  if digits.isEmpty then none
  else
    let value := wordOfDigits digits
    some (if negative then -value else value, text.dropWhile isDigitByte)

/-- Takes `[Rx + N]` or `[Rx - N]`. -/
def indexedForm (text : List UInt8) : Option (Operand × List UInt8) := do
  let text ← expect '[' (skipBlanks text)
  let (base, text) ← registerIndex (skipBlanks text)
  let (direction, text) ← anyByte (skipBlanks text)
  let (distance, text) ← number text
  let text ← expect ']' (skipBlanks text)
  if direction = '-'.toUInt8 then some (indexed base (-distance), text)
  else if direction = '+'.toUInt8 then some (indexed base distance, text)
  else none

/-- Takes `[Rx]`. -/
def pointerForm (text : List UInt8) : Option (Operand × List UInt8) := do
  let text ← expect '[' (skipBlanks text)
  let (base, text) ← registerIndex (skipBlanks text)
  let text ← expect ']' (skipBlanks text)
  some (indexed base 0, text)

/-- Takes `[N]`. -/
def memoryForm (text : List UInt8) : Option (Operand × List UInt8) := do
  let text ← expect '[' (skipBlanks text)
  let (index, text) ← number text
  let text ← expect ']' (skipBlanks text)
  some (memory index, text)

/-- Takes `Rx`. -/
def registerForm (text : List UInt8) : Option (Operand × List UInt8) :=
  (registerIndex (skipBlanks text)).map fun (index, text) => (register index, text)

/-- Takes `N`. -/
def numberForm (text : List UInt8) : Option (Operand × List UInt8) :=
  (number text).map fun (value, text) => (immediate value, text)

/-- Takes `'c'`. -/
def characterForm (text : List UInt8) : Option (Operand × List UInt8) := do
  let text ← expect '\'' (skipBlanks text)
  let (c, text) ← anyByte text
  let text ← expect '\'' text
  some (immediate c.toUInt32.toInt32, text)

/-- The byte that stands for itself or, after a backslash, for a control character. -/
def escaped (b : UInt8) : UInt8 :=
  if b = 'n'.toUInt8 then 0x0A
  else if b = 't'.toUInt8 then 0x09
  else if b = 'r'.toUInt8 then 0x0D
  else if b = 'v'.toUInt8 then 0x0B
  else if b = 'a'.toUInt8 then 0x07
  else if b = 'f'.toUInt8 then 0x0C
  else b

/-- Takes `'\c'`. -/
def escapeForm (text : List UInt8) : Option (Operand × List UInt8) := do
  let text ← expect '\'' (skipBlanks text)
  let text ← expect '\\' text
  let (c, text) ← anyByte text
  let text ← expect '\'' text
  some (immediate (escaped c).toUInt32.toInt32, text)

/-- The forms, from the earliest to the last. -/
def forms : List (Reader Operand) :=
  [indexedForm, pointerForm, memoryForm, registerForm, numberForm, characterForm, escapeForm]

/-- The longer of two matches, and the first if they are as long. A match is an operand and
the number of bytes it takes. -/
def longer : Option (Operand × Nat) → Option (Operand × Nat) → Option (Operand × Nat)
  | some a, some b => if a.2 < b.2 then some b else some a
  | none, b => b
  | a, none => a

def matchOf (form : Reader Operand) (text : List UInt8) : Option (Operand × Nat) :=
  (form text).map fun (operand, rest) => (operand, text.length - rest.length)

/-- The operand at the front of a text and the number of bytes it takes. Of the forms that match,
the one that takes most wins, and of two that take the same the earlier one. -/
def read? (text : List UInt8) : Option (Operand × Nat) :=
  forms.foldl (fun best form => longer best (matchOf form text)) none

/-- The operand at the front of a text, or the value 0 if there is none. -/
def readOrZero (text : List UInt8) : Operand :=
  ((read? text).map Prod.fst).getD (immediate 0)

end StackMachine.Operand
