import StackMachine.CommandLine.Arguments
import StackMachine.Journal.Sources

namespace StackMachine.CommandLine

open Journal

/-- What a tool needs from the world around it. -/
structure Host (m : Type → Type) where
  readFile : String → m (Except FileFault (Array UInt8))
  writeFile : String → Array UInt8 → m (Except FileFault Unit)
  record : Record → m Unit
  /-- Shows a text that is not a record. -/
  say : String → m Unit
  /-- The console for a machine to start with. -/
  console : m Console
  /-- Runs a machine that was started on that console, and shows its records. -/
  run : Level → Machine → m (Except Fault Unit)

inductive Tool where
  | assembler
  | processor
  | disassembler
  deriving Repr, DecidableEq

namespace Tool

def name : Tool → String
  | assembler => "assembler"
  | processor => "processor"
  | disassembler => "disassembler"

def ofName? (name : String) : Option Tool :=
  [assembler, processor, disassembler].find? fun tool => tool.name == name

def commonOptions : List OptionSpec :=
  [⟨"log-level", some 'I', .value .level⟩, ⟨"help", some 'h', .help⟩,
   ⟨"version", some 'V', .version⟩]

def interface : Tool → Interface
  | assembler =>
    ⟨[⟨"listing", some 'L', .value .path⟩, ⟨"no-listing", none, .flag⟩,
      ⟨"max-labels", some 'S', .value .count⟩, ⟨"output-capacity", some 'F', .value .count⟩] ++
      commonOptions, ["input", "output"]⟩
  | processor =>
    ⟨[⟨"registers", some 'R', .value .count⟩, ⟨"ram", some 'M', .value .count⟩,
      ⟨"width", some 'W', .value .count⟩, ⟨"height", some 'H', .value .count⟩,
      ⟨"max-call-depth", none, .value .count⟩] ++ commonOptions, ["input"]⟩
  | disassembler => ⟨commonOptions, ["input", "output"]⟩

/-- The value of an option that is a number. -/
def countOr (a : Arguments) (name : String) (preset : Nat) : Nat :=
  ((a.value? name).bind fun value => Text.count? value.toList).getD preset

def threshold (a : Arguments) : Level :=
  ((a.value? "log-level").bind Level.ofText?).getD .info

def limits (a : Arguments) : Limits :=
  let preset : Limits := {}
  ⟨countOr a "max-labels" preset.labels, countOr a "output-capacity" preset.body⟩

def sizes (a : Arguments) : Sizes :=
  let preset : Sizes := {}
  { preset with
    registers := countOr a "registers" preset.registers
    memory := countOr a "ram" preset.memory
    screenWidth := countOr a "width" preset.screenWidth
    screenHeight := countOr a "height" preset.screenHeight
    callDepth := countOr a "max-call-depth" preset.callDepth }

/-- The path of the input, which has to be given. -/
def input (a : Arguments) : Except Fault String :=
  match a.positional? 0 with
  | some path => .ok path
  | none => .error (.usage "no input file given")

variable {m : Type → Type} [Monad m]

/-- Shows the records that get through the threshold. -/
def log (host : Host m) (a : Arguments) (records : List Record) : m Unit :=
  (records.filter fun r => (threshold a).admits r.level).forM host.record

abbrev Work (m : Type → Type) := ExceptT Fault m

def readFile (host : Host m) (path : String) : Work m (Array UInt8) := do
  match ← host.readFile path with
  | .ok bytes => return bytes
  | .error cause => throw (.file path cause)

def writeFile (host : Host m) (path : String) (bytes : Array UInt8) : Work m Unit := do
  match ← host.writeFile path bytes with
  | .ok () => return
  | .error cause => throw (.file path cause)

def readLines (host : Host m) (path : String) : Work m (List String) := do
  let bytes ← readFile host path
  match Bytes.text? bytes with
  | some text => return Text.trimmedLines text
  | none => throw (.file path .notText)

def note (host : Host m) (a : Arguments) (records : List Record) : Work m Unit :=
  ExceptT.lift (log host a records)

/-- Shows a message of the tool itself. -/
def tell (tool : Tool) (host : Host m) (a : Arguments) (level : Level) (message : String) :
    Work m Unit :=
  note host a [⟨level, tool.name, message⟩]

def runAssembler (host : Host m) (a : Arguments) : Work m Unit := do
  let path ← MonadExcept.ofExcept (input a)
  let lines ← readLines host path
  let (draft, result) := (Draft.empty (limits a)).assemble lines
  note host a (draft.records result.isOk)
  let assembly ← MonadExcept.ofExcept result
  let warnings := assembly.warnings.size
  if warnings > 0 then
    assembler.tell host a .warning (Text.decimal warnings ++ " warning(s)")
  let output := (a.positional? 1).getD "a.bin"
  writeFile host output assembly.program.bytes
  assembler.tell host a .info
    ("Assembled " ++ path ++ " -> " ++ output ++ " (" ++ Text.decimal assembly.program.size ++
      " bytes)")
  unless a.has "no-listing" do
    let listing := (a.value? "listing").getD "listing.txt"
    writeFile host listing (Bytes.ofString assembly.listingText).toArray
    assembler.tell host a .info ("Listing written to " ++ listing)

def runProcessor (host : Host m) (a : Arguments) : Work m Unit := do
  let path ← MonadExcept.ofExcept (input a)
  let bytes ← readFile host path
  let program ← MonadExcept.ofExcept (Program.ofBytes bytes)
  processor.tell host a .info
    ("Loaded " ++ path ++ " (version " ++ Text.decimal program.version.toNat ++ ", " ++
      Text.decimal program.size ++ " bytes)")
  let console ← host.console
  let machine ← MonadExcept.ofExcept (Machine.start program (sizes a) console)
  ExceptT.mk (host.run (threshold a) machine)

/-- Writes a program file out as source, as far as it can be decoded. -/
def runDisassembler (host : Host m) (a : Arguments) : Work m Unit := do
  let path ← MonadExcept.ofExcept (input a)
  let bytes ← readFile host path
  let program ← MonadExcept.ofExcept (Program.ofBytes bytes)
  let output := (a.positional? 1).getD "program.txt"
  let disassembly := Disassembly.ofProgram program
  writeFile host output (Bytes.ofString disassembly.text).toArray
  note host a (Decoded.records (threshold a) disassembly.code)
  match disassembly.fault with
  | some fault => throw fault
  | none =>
    disassembler.tell host a .info ("Disassembled " ++ path ++ " -> " ++ output)

def work (tool : Tool) (host : Host m) (a : Arguments) : Work m Unit :=
  match tool with
  | assembler => runAssembler host a
  | processor => runProcessor host a
  | disassembler => runDisassembler host a

def usage (tool : Tool) : String :=
  let option := fun (o : OptionSpec) =>
    let short := match o.short with
      | some letter => "-" ++ letter.toString ++ ", "
      | none => "    "
    let value := match o.kind with
      | .value .path => " <FILE>"
      | .value .level => " <LEVEL>"
      | .value .count => " <N>"
      | _ => ""
    "  " ++ short ++ "--" ++ o.name ++ value ++ "\n"
  let paths := tool.interface.positionals.map fun path => " [" ++ path.map Char.toUpper ++ "]"
  "Usage: " ++ tool.name ++ " [OPTIONS]" ++ String.join paths ++ "\n\nOptions:\n" ++
    String.join (tool.interface.options.map option)

def version : String := "0.3.0"

/-- Runs a tool on its command line and gives its exit code: 0 if it did its work, 1 if there
was a fault, 2 if the command line was rejected. -/
def execute (tool : Tool) (host : Host m) (arguments : List String) : m UInt32 := do
  match tool.interface.read arguments with
  | .rejected => return 2
  | .help =>
    host.say tool.usage
    return 0
  | .version =>
    host.say (tool.name ++ " " ++ version ++ "\n")
    return 0
  | .accepted a =>
    match ← (tool.work host a).run with
    | .ok () => return 0
    | .error fault =>
      log host a [⟨.error, tool.name, fault.message⟩]
      return 1

end Tool

end StackMachine.CommandLine
