import StackMachine.Journal.Date
import StackMachine.Text.Pad

namespace StackMachine.Journal

/-- The levels, the least important first. -/
inductive Level where
  /-- Every single step. -/
  | status
  | info
  | warning
  | error
  deriving Repr, DecidableEq

namespace Level

def rank : Level → Nat
  | status => 0
  | info => 1
  | warning => 2
  | error => 3

def name : Level → String
  | status => "STAT"
  | info => "INFO"
  | warning => "WARN"
  | error => "ERROR"

/-- A level by one of its names or its rank. Upper and lower case are the same. -/
def ofText? (text : String) : Option Level :=
  match text.map Char.toLower with
  | "status" | "stat" | "0" => some status
  | "info" | "1" => some info
  | "warn" | "warning" | "2" => some warning
  | "error" | "3" => some error
  | _ => none

/-- What is said about a text that is not a level. -/
def unknown (text : String) : String :=
  "unknown log level '" ++ text.map Char.toLower ++ "'"

def admits (threshold level : Level) : Bool :=
  threshold.rank ≤ level.rank

end Level

structure Record where
  level : Level
  tag : String
  message : String
  deriving Repr, DecidableEq

/-- The text up to the first two colons in a row. -/
def beforeColons : List Char → List Char
  | [] => []
  | [c] => [c]
  | c :: d :: rest => if c = ':' ∧ d = ':' then [] else c :: beforeColons (d :: rest)

/-- The last part of a path whose parts are separated by two colons. -/
def tagOfPath (path : String) : String :=
  String.ofList (beforeColons path.toList.reverse).reverse

structure Style where
  showLevel : Bool := true
  color : Bool := false
  time : Option Time := none
  deriving Repr, DecidableEq

/-- A terminal's escape sequence for a way to show text. -/
def escapeCode (code : String) : String :=
  "\x1b[" ++ code ++ "m"

def plain : String :=
  escapeCode "0"

/-- The escape sequences for the text of a level. -/
def Level.escapes : Level → String
  | status => plain ++ escapeCode "2"
  | info => plain
  | warning => plain ++ escapeCode "1" ++ escapeCode "33"
  | error => plain ++ escapeCode "1" ++ escapeCode "31"

def Record.text (style : Style) (r : Record) : String :=
  (if style.color then r.level.escapes else "") ++
  (match style.time with
    | some time => time.text ++ " "
    | none => "") ++
  (if style.showLevel then "[" ++ Text.padRight ' ' 5 r.level.name ++ "] " else "") ++
  r.tag ++ ": " ++ r.message ++ "\n" ++
  (if style.color then plain else "")

/-- The records that get through a threshold, as text. -/
def text (style : Style) (threshold : Level) (records : List Record) : String :=
  String.join ((records.filter fun r => threshold.admits r.level).map (Record.text style))

end StackMachine.Journal
