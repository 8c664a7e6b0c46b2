import StackMachine.CommandLine.Tool

namespace StackMachine.CommandLine

/-- Files by their paths; the directories are those that the paths go through. The folder is a part
of a larger tree, of which only the directories above it and the top are known to be there. -/
structure Folder where
  files : List (String × Array UInt8)
  deriving Repr, DecidableEq

/-- The way to a directory: its parts, the innermost one first. The folder itself is the empty
way. A way that ends in `..` parts starts above the folder, and one that ends in an empty part
starts at the top of the tree. -/
abbrev Way := List String

namespace Way

/-- The directory around a directory. The top of the tree is around itself. -/
def up : Way → Way
  | [] => [".."]
  | ".." :: rest => ".." :: ".." :: rest
  | "" :: rest => "" :: rest
  | _ :: rest => rest

def name (way : Way) : String :=
  "/".intercalate way.reverse

end Way

inductive Entry where
  | directory
  | file (bytes : Array UInt8)
  | vacant
  deriving Repr, DecidableEq

/-- Where a path ends. -/
inductive Place where
  /-- At a directory that it does not name by a part of its own. -/
  | directory
  /-- At a part within a directory. -/
  | entry (way : Way) (part : String)
  deriving Repr, DecidableEq

namespace Folder

/-- The greatest number of bytes in a path. -/
def maxPath : Nat := 4095

/-- The greatest number of bytes in a part of a path. -/
def maxPart : Nat := 255

def get? (f : Folder) (name : String) : Option (Array UInt8) :=
  f.files.lookup name

/-- Some file's path goes through the given one. -/
def hasDirectory (f : Folder) (name : String) : Bool :=
  f.files.any fun (path, _) => (name ++ "/").isPrefixOf path

/-- What a directory has under a part, which must not be too long. -/
def entry (f : Folder) (way : Way) (part : String) : Except FileFault Entry :=
  let name := Way.name (part :: way)
  if maxPart < part.utf8ByteSize then .error .nameTooLong
  else
    match f.get? name with
    | some bytes => .ok (.file bytes)
    | none => .ok (if f.hasDirectory name then .directory else .vacant)

/-- Follows parts from a directory on. -/
def follow (f : Folder) : Way → List String → Except FileFault Place
  | _, [] => .ok .directory
  | way, part :: rest =>
    if part = "." then f.follow way rest
    else if part = ".." then f.follow way.up rest
    else if rest.isEmpty then .ok (.entry way part)
    else
      match f.entry way part with
      | .ok .directory => f.follow (part :: way) rest
      | .ok (.file _) => .error .notADirectory
      | .ok .vacant => .error .notFound
      | .error fault => .error fault

/-- Where a path ends. One that starts with a slash starts at the top of the tree. -/
def place (f : Folder) (path : String) : Except FileFault Place :=
  if maxPath < path.utf8ByteSize then .error .nameTooLong
  else
    f.follow (if path.startsWith "/" then [""] else [])
      ((path.splitOn "/").filter fun part => part != "")

/-- The content of a file. Behind a file no slash may stand. -/
def read (f : Folder) (path : String) : Except FileFault (Array UInt8) := do
  match ← f.place path with
  | .directory => .error .isADirectory
  | .entry way part =>
    match ← f.entry way part with
    | .directory => .error .isADirectory
    | .vacant => .error .notFound
    | .file bytes => if path.endsWith "/" then .error .notADirectory else .ok bytes

def put (name : String) (bytes : Array UInt8) :
    List (String × Array UInt8) → List (String × Array UInt8)
  | [] => [(name, bytes)]
  | (other, old) :: rest =>
    if other = name then (other, bytes) :: rest else (other, old) :: put name bytes rest

/-- Replaces or adds a file. A path with a slash at its end is taken for one of a directory,
whatever is there. -/
def write (f : Folder) (path : String) (bytes : Array UInt8) : Except FileFault Folder := do
  match ← f.place path with
  | .directory => .error .isADirectory
  | .entry way part =>
    if path.endsWith "/" then .error .isADirectory
    else
      match ← f.entry way part with
      | .directory => .error .isADirectory
      | .vacant | .file _ => .ok ⟨put (Way.name (part :: way)) bytes f.files⟩

/-- The name stands for a file in the folder, and not for one around it. -/
def holds (name : String) : Bool :=
  !("/".isPrefixOf name || "../".isPrefixOf name)

/-- The files of a folder that are not in an earlier one as they are. -/
def changes (earlier later : Folder) : List (String × Array UInt8) :=
  later.files.filter fun (name, bytes) => holds name && earlier.get? name != some bytes

end Folder

/-- A tool at work: the folder it works in, and what it said so far. -/
structure Session where
  folder : Folder
  input : List UInt8
  output : Array UInt8
  records : Array Journal.Record
  deriving Repr, DecidableEq

namespace Session

def readFile (path : String) : StateM Session (Except FileFault (Array UInt8)) := do
  return (← get).folder.read path

def writeFile (path : String) (bytes : Array UInt8) :
    StateM Session (Except FileFault Unit) := do
  let session ← get
  match session.folder.write path bytes with
  | .ok folder =>
    set { session with folder }
    return .ok ()
  | .error cause => return .error cause

/-- A run that does not end within so many steps counts as one that was stopped without a
fault. -/
def patience : Nat := 0x100000000

def run (threshold : Journal.Level) (machine : Machine) :
    StateM Session (Except Fault Unit) := do
  let run := machine.run patience
  modify fun session =>
    { session with
      output := session.output ++ run.machine.console.sink.written
      records := session.records ++ Event.records threshold run.events }
  return run.result.getD (.ok ())

def host : Host (StateM Session) where
  readFile := readFile
  writeFile := writeFile
  record r := modify fun session => { session with records := session.records.push r }
  say text := modify fun session =>
    { session with output := session.output ++ Bytes.ofString text }
  console := do return ⟨⟨(← get).input, false⟩, {}⟩
  run := run

/-- Runs a tool in a folder: its exit code, and what is there afterwards. -/
def runTool (folder : Folder) (tool : Tool) (arguments : List String) (input : List UInt8) :
    UInt32 × Session :=
  (tool.execute host arguments).run ⟨folder, input, #[], #[]⟩

end Session

end StackMachine.CommandLine
