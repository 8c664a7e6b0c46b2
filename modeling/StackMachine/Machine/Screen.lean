import StackMachine.Machine.Sizes

namespace StackMachine

/-- Cells of brightness, row by row. -/
structure Screen where
  width : Nat
  cells : Array Int32
  deriving Repr, DecidableEq

namespace Screen

/-- The characters from the darkest to the brightest. -/
def palette : String :=
  " .'\x60^\",:;Il!i><~+_-?][\x7d\x7b1)(|\\/tfjrxnuvczXYUJCLQ0OZmwqpdbkhao*#MW&8%B@$"

def paletteBytes : Array UInt8 :=
  (Bytes.ofString palette).toArray

theorem size_paletteBytes : paletteBytes.size = 70 := by decide +kernel

def make (width height : Nat) : Except Fault Screen :=
  match Sizes.screenCells width height with
  | none => .error (.tooLarge "video cell count" maxCells)
  | some count => do
    let cells ← zeroCells "video" count
    .ok ⟨width, cells⟩

/-- The index of the cell with the given number. -/
def locate (s : Screen) (key : Int32) : Except Fault Nat :=
  match indexIn? s.cells.size key.toInt with
  | some i => .ok i
  | none => .error (.noPixel key.toInt s.cells.size)

def get (s : Screen) (key : Int32) : Except Fault Int32 := do
  let i ← s.locate key
  .ok (s.cells.getD i 0)

def set (s : Screen) (key value : Int32) : Except Fault Screen := do
  let i ← s.locate key
  .ok { s with cells := s.cells.setIfInBounds i value }

/-- The character for a brightness. Brightness beyond either end counts as that end. -/
def pixel (value : Int32) : UInt8 :=
  paletteBytes.getD (min value.toInt.toNat (paletteBytes.size - 1)) 0x20

def row (s : Screen) (index : Nat) : List UInt8 :=
  (s.cells.extract (index * s.width) ((index + 1) * s.width)).toList.map pixel ++ [0x0A]

/-- The screen as text, one line a row. A screen without columns has no text. -/
def render (s : Screen) : List UInt8 :=
  if s.width = 0 then []
  else (List.range (s.cells.size / s.width)).flatMap s.row

end Screen

end StackMachine
