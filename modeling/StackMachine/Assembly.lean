import StackMachine.Program
import StackMachine.Statement
import StackMachine.Text.Line

namespace StackMachine

structure Limits where
  labels : Nat := 1024
  /-- The bytes of the body. -/
  body : Nat := 0xFFFF
  deriving Repr, DecidableEq

structure Row where
  line : String
  offset : Nat
  bytes : List UInt8
  deriving Repr, DecidableEq

/-- The columns that a row has for the line. -/
def Row.columns : Nat := 36

def Row.text (r : Row) : String :=
  let line := Text.padRight ' ' columns (String.ofList (r.line.toList.take columns))
  "| " ++ line ++ " | [0x" ++ Text.upperHex 8 r.offset ++ "]" ++
    String.join (r.bytes.map fun b => " " ++ Text.upperHex 2 b.toNat)

/-- A remark on the line with the given number, counted from 1. -/
structure Warning where
  line : Nat
  remark : Remark
  deriving Repr, DecidableEq

def Warning.message (w : Warning) : String :=
  "line " ++ Text.decimal w.line ++ ": " ++ w.remark.message

/-- An assembly that is being made. -/
structure Draft where
  limits : Limits
  labels : Labels
  body : Array UInt8
  listing : Array Row
  warnings : Array Warning
  deriving Repr, DecidableEq

structure Assembly where
  program : Program
  listing : Array Row
  warnings : Array Warning
  deriving Repr, DecidableEq

def Assembly.listingText (a : Assembly) : String :=
  String.join (a.listing.toList.map fun row => row.text ++ "\n")

namespace Draft

def empty (limits : Limits) : Draft :=
  ⟨limits, .empty limits.labels, #[], #[], #[]⟩

/-- The offset at which the next instruction will stand. -/
def offset (d : Draft) : Nat :=
  Program.headerSize + d.body.size

/-- Keeps remarks, if the pass is the final one. -/
def warn (d : Draft) (final : Bool) (number : Nat) (remarks : List Remark) : Draft :=
  if final then { d with warnings := d.warnings ++ remarks.map (Warning.mk number) } else d

/-- Takes in one line without blanks around it. If it does not fit, the draft stays without
it. -/
def addLine (d : Draft) (final : Bool) (number : Nat) (line : List Char) :
    Draft × Option Fault :=
  match Statement.ofLine line with
  | .comment => (d, none)
  | .labelWithoutName => (d.warn final number [.labelWithoutName], none)
  | .unknown word => (d.warn final number [.unknownInstruction (String.ofList word)], none)
  | .label name =>
    match d.labels.define name d.offset with
    | .error fault => (d, some fault)
    | .ok labels =>
      let row := ⟨String.ofList line, d.offset, []⟩
      ({ d with labels, listing := d.listing.push row }, none)
  | .instruction i text =>
    let (bytes, remarks) := i.encode d.labels text d.offset
    let row := ⟨String.ofList line, d.offset, bytes⟩
    let d := d.warn final number remarks
    let needed := d.body.size + bytes.length
    if d.limits.body < needed then (d, some (.bodyTooLong needed d.limits.body))
    else ({ d with body := d.body ++ bytes, listing := d.listing.push row }, none)

/-- Takes in lines up to the first one that does not fit. -/
def addLines (final : Bool) : Draft → Nat → List String → Draft × Option Fault
  | d, _, [] => (d, none)
  | d, number, line :: rest =>
    match d.addLine final number (Text.trim line.toList) with
    | (d, none) => addLines final d (number + 1) rest
    | (d, some fault) => (d, some fault)

/-- One pass over the lines. Only the labels stay from what was there before. -/
def pass (d : Draft) (final : Bool) (lines : List String) : Draft × Option Fault :=
  addLines final { d with body := #[], listing := #[], warnings := #[] } 1 lines

/-- Goes through the lines twice. The first pass learns the offsets of the labels, and the second
one, the final pass, uses them. -/
def assemble (d : Draft) (lines : List String) : Draft × Except Fault Assembly :=
  match d.pass false lines with
  | (d, some fault) => (d, .error fault)
  | (d, none) =>
    match d.pass true lines with
    | (d, some fault) => (d, .error fault)
    | (d, none) => (d, .ok ⟨.ofBody d.body, d.listing, d.warnings⟩)

end Draft

def assemble (limits : Limits) (lines : List String) : Except Fault Assembly :=
  ((Draft.empty limits).assemble lines).2

def assembleText (limits : Limits) (source : String) : Except Fault Assembly :=
  assemble limits (Text.trimmedLines source)

end StackMachine
