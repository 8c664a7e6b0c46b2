import StackMachine.Text.Blank

namespace StackMachine.Text

def consFirst (c : Char) : List (List Char) → List (List Char)
  | [] => [[c]]
  | piece :: rest => (c :: piece) :: rest

/-- The lines of a text, each with its newline. What is behind the last newline is a line only if it
is not empty. -/
def pieces (text : List Char) : List (List Char) :=
  text.foldr (fun c rest => if c = '\n' then [c] :: rest else consFirst c rest) []

/-- Drops the given last character, if the text ends with it. -/
def dropEnding (c : Char) (text : List Char) : List Char :=
  if text.getLast? = some c then text.dropLast else text

/-- A carriage return right before a newline belongs to the ending of the line. -/
def chomp (piece : List Char) : List Char :=
  if piece.getLast? = some '\n' then dropEnding '\r' piece.dropLast else piece

def lines (text : List Char) : List (List Char) :=
  (pieces text).map chomp

/-- The lines of a text without the blanks around them; blank lines stay, as empty ones. -/
def trimmedLines (text : String) : List String :=
  (lines text.toList).map fun line => String.ofList (trim line)

end StackMachine.Text
