import StackMachine.CommandLine.Tool

namespace StackMachine.Main

open CommandLine

/-- The number of a system error, which some calls report with a minus sign. -/
def errorNumber (code : UInt32) : UInt32 :=
  if code < 0x80000000 then code else 0 - code

def faultOf : IO.Error → FileFault
  | .noFileOrDirectory .. => .notFound
  | .inappropriateType _ code _ =>
    if errorNumber code = 20 then .notADirectory else .isADirectory
  | .invalidArgument _ code message =>
    if errorNumber code = 36 then .nameTooLong else .other message
  | error => .other (toString error)

def attempt {α : Type} (action : IO α) : IO (Except FileFault α) := do
  try
    return .ok (← action)
  catch error =>
    return .error (faultOf error)

def record (r : Journal.Record) : IO Unit := do
  (← IO.getStderr).putStr (r.text {})

/-- Passes on what a machine has printed. -/
def passOn (machine : Machine) : IO Machine := do
  let console := machine.console
  let written := console.sink.written
  unless written.isEmpty do
    (← IO.getStdout).write ⟨written⟩
  return { machine with console := { console with sink := { console.sink with written := #[] } } }

/-- The machine is about to read a line that has not been typed yet. -/
def awaitsLine (machine : Machine) : Bool :=
  match machine.fetch with
  | .ok d => d.instruction == .read && !machine.console.source.pending.contains 0x0A
  | .error _ => false

/-- Reads bytes up to the next newline or the end of the input. -/
partial def readLine (input : IO.FS.Stream) (line : Array UInt8) : IO (Array UInt8) := do
  let bytes ← input.read 1
  let line := line ++ bytes.data
  if bytes.isEmpty || line.back? == some 0x0A then return line else readLine input line

def feed (machine : Machine) : IO Machine := do
  (← IO.getStdout).flush
  let line ← readLine (← IO.getStdin) #[]
  let console := machine.console
  let source := { console.source with pending := console.source.pending ++ line.toList }
  return { machine with console := { console with source } }

/-- Steps up to the end of the run. Lines are read and output is passed on as the run goes. -/
partial def loop (threshold : Journal.Level) (machine : Machine) : IO (Except Fault Unit) := do
  let machine ← if awaitsLine machine then feed machine else pure machine
  let report := machine.step
  (Event.records threshold report.event.toArray).forM record
  let machine ← passOn report.machine
  match report.result with
  | .ok (.shift _) => loop threshold machine
  | .ok .halt => return .ok ()
  | .error fault => return .error fault

/-- The host that works on the computer's files and on its console. -/
def host : Host IO where
  readFile path := attempt do return (← IO.FS.readBinFile path).data
  writeFile path bytes := attempt (IO.FS.writeBinFile path ⟨bytes⟩)
  record := record
  say text := do (← IO.getStdout).putStr text
  console := pure ⟨⟨[], false⟩, {}⟩
  run threshold machine := do
    let result ← loop threshold machine
    (← IO.getStdout).flush
    return result

def refuse : IO UInt32 := do
  (← IO.getStderr).putStr "Usage: <assembler|processor|disassembler> [ARGUMENTS]\n"
  return 2

end StackMachine.Main

/-- The first argument names the tool, the others are for the tool. -/
def main (arguments : List String) : IO UInt32 := do
  match arguments with
  | name :: rest =>
    match StackMachine.CommandLine.Tool.ofName? name with
    | some tool => tool.execute StackMachine.Main.host rest
    | none => StackMachine.Main.refuse
  | [] => StackMachine.Main.refuse
