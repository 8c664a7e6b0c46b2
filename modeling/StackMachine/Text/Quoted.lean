import StackMachine.Text.Number
import StackMachine.Text.Unseen

namespace StackMachine.Text

/-- How a quoted text shows a character. -/
def escape (c : Char) : String :=
  match c with
  | '\x00' => "\\0"
  | '\t' => "\\t"
  | '\n' => "\\n"
  | '\r' => "\\r"
  | '"' => "\\\""
  | '\\' => "\\\\"
  | _ => if isUnseen c then "\\u\x7b" ++ hex 0 c.toNat ++ "\x7d" else c.toString

def quote (text : String) : String :=
  "\"" ++ String.join (text.toList.map escape) ++ "\""

end StackMachine.Text
