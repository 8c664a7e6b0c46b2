import StackMachine.Fault

namespace StackMachine

/-- Bytes to be read. After the last one a source ends or fails. -/
structure Source where
  pending : List UInt8
  /-- Reading past the last byte fails. -/
  fails : Bool := false
  deriving Repr, DecidableEq

structure Sink where
  written : Array UInt8 := #[]
  /-- The number of bytes that there is room for, where it is limited. -/
  room : Option Nat := none
  flushFails : Bool := false
  deriving Repr, DecidableEq

namespace Source

/-- A line with its newline and what follows it; without a newline, all there is. -/
def cutLine (bytes : List UInt8) : List UInt8 × List UInt8 :=
  let line := bytes.takeWhile (· != 0x0A)
  match bytes.dropWhile (· != 0x0A) with
  | [] => (line, [])
  | newline :: rest => (line ++ [newline], rest)

/-- Reads up to the next newline. The line is taken even if it turns out not to be text. -/
def readLine (s : Source) : Except DeviceFault String × Source :=
  let (line, rest) := cutLine s.pending
  let after := { s with pending := rest }
  if s.fails && line.getLast? != some 0x0A then (.error .lost, after)
  else match Bytes.text? line.toArray with
    | some text => (.ok text, after)
    | none => (.error .notText, after)

end Source

namespace Sink

/-- Writes bytes. If there is not room for all of them, the first ones are written. -/
def write (s : Sink) (bytes : List UInt8) : Except DeviceFault Unit × Sink :=
  match s.room with
  | none => (.ok (), { s with written := s.written ++ bytes })
  | some room =>
    let after :=
      { s with written := s.written ++ bytes.take room, room := some (room - bytes.length) }
    (if bytes.length ≤ room then .ok () else .error .full, after)

def flush (s : Sink) : Except DeviceFault Unit :=
  if s.flushFails then .error .flushFailed else .ok ()

end Sink

end StackMachine
