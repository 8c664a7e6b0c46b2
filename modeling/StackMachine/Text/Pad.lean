namespace StackMachine.Text

def padLeft (fill : Char) (width : Nat) (text : String) : String :=
  "".pushn fill (width - text.length) ++ text

def padRight (fill : Char) (width : Nat) (text : String) : String :=
  text.pushn fill (width - text.length)

/-- Fills up a text on both sides; if the sides differ, the right one has one more. -/
def padCenter (fill : Char) (width : Nat) (text : String) : String :=
  let missing := width - text.length
  padRight fill width (padLeft fill (text.length + missing / 2) text)

end StackMachine.Text
