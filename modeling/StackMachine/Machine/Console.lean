import StackMachine.Machine.Channel
import StackMachine.Text.Blank

namespace StackMachine

structure Console where
  source : Source
  sink : Sink
  deriving Repr, DecidableEq

namespace Console

/-- The bytes that clear a terminal and move to its upper left corner. -/
def clearScreen : List UInt8 :=
  Bytes.ofString "\x1b[2J\x1b[H"

def print (c : Console) (bytes : List UInt8) : Except Fault Unit × Console :=
  match c with
  | ⟨source, sink⟩ =>
    match sink.write bytes with
    | (.ok (), sink) => (.ok (), ⟨source, sink⟩)
    | (.error cause, sink) => (.error (.output cause), ⟨source, sink⟩)

def flush (c : Console) : Except Fault Unit :=
  match c.sink.flush with
  | .ok () => .ok ()
  | .error cause => .error (.output cause)

/-- The number on a line. Blanks around it do not count. -/
def numberOf (line : String) : Except Fault Int32 :=
  let text := Text.trim line.toList
  match Text.int32? text with
  | some value => .ok value
  | none => .error (.notANumber (String.ofList text))

/-- Reads one line, which has to hold a number. What was printed is flushed before. -/
def readNumber (c : Console) : Except Fault Int32 × Console :=
  match c.flush with
  | .error fault => (.error fault, c)
  | .ok () =>
    match c.source.readLine with
    | (.ok line, source) => (numberOf line, { c with source })
    | (.error cause, source) => (.error (.input cause), { c with source })

end Console

end StackMachine
