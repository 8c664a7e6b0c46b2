import StackMachine.Labels
import StackMachine.Operand.Reader
import StackMachine.Text.Blank

namespace StackMachine

/-- Something about a line that its author should know. -/
inductive Remark where
  | labelWithoutName
  | unknownInstruction (word : String)
  | operandIgnored (instruction : Instruction) (text : String)
  | operandNotRead (instruction : Instruction) (text : String)
  | trailingText (instruction : Instruction) (text : String)
  /-- The offset of an operand does not fit in its 24 bits. -/
  | wideOffset (instruction : Instruction) (offset : Int32)
  | noTarget (instruction : Instruction)
  /-- The distance to the target would be zero, which is taken for a label that is missing. -/
  | targetIsNext (instruction : Instruction) (label : String)
  | undefinedLabel (label : String)
  | notARegister (instruction : Instruction) (text : String)
  deriving Repr, DecidableEq

def Remark.message : Remark → String
  | labelWithoutName => "HERE without a label name"
  | unknownInstruction word => "unknown instruction '" ++ word ++ "', line skipped"
  | operandIgnored i text => i.mnemonic ++ " takes no operand, '" ++ text ++ "' ignored"
  | operandNotRead i text => i.mnemonic ++ ": cannot parse operand '" ++ text ++ "', using 0"
  | trailingText i text => i.mnemonic ++ ": ignoring trailing text '" ++ text ++ "'"
  | wideOffset i offset =>
    i.mnemonic ++ ": offset " ++ Text.signed offset.toInt ++
      " does not fit in 24 bits and will wrap"
  | noTarget i => i.mnemonic ++ " without a target"
  | targetIsNext i label =>
    i.mnemonic ++ " " ++ label ++
      " targets the next instruction; displacement 0 traps at runtime"
  | undefinedLabel label => "undefined label '" ++ label ++ "'"
  | notARegister i text =>
    i.mnemonic ++ ": expected a register, got '" ++ text ++ "', using 0"

/-- A line of source. What is wrong with an instruction leads to remarks; there are bytes for it all
the same. -/
inductive Statement where
  | comment
  | label (name : List Char)
  | labelWithoutName
  | unknown (word : List Char)
  | instruction (instruction : Instruction) (operand : List Char)
  deriving Repr, DecidableEq

/-- The text starts a comment, or there is none. -/
def isComment (text : List Char) : Bool :=
  match text with
  | [] => true
  | c :: _ => c == '#'

/-- What a line says that has no blanks around it. -/
def Statement.ofLine (line : List Char) : Statement :=
  if isComment line then .comment
  else
    let word := Text.firstWord line
    let rest := Text.afterWord line
    if word = "HERE".toList then
      let name := Text.firstWord rest
      if name.isEmpty then .labelWithoutName else .label name
    else
      match Instruction.ofMnemonic? (String.ofList word) with
      | some i => .instruction i rest
      | none => .unknown word

namespace Instruction

def readOperand (i : Instruction) (text : List Char) : Operand × List Remark :=
  match Operand.read? (Bytes.ofChars text) with
  | none => (.immediate 0, [.operandNotRead i (String.ofList text)])
  | some (operand, used) =>
    let trailing := Text.trimStart ((Bytes.dropBytes? used text).getD [])
    let remarks :=
      if isComment trailing then [] else [.trailingText i (String.ofList trailing)]
    match operand with
    | .indexed _ offset =>
      if Operand.leastOffset ≤ offset ∧ offset ≤ Operand.greatestOffset then (operand, remarks)
      else (operand, remarks ++ [.wideOffset i offset])
    | _ => (operand, remarks)

/-- The distance from `next` to a target, which is a number or a label. -/
def readTarget (i : Instruction) (labels : Labels) (text : List Char) (next : Nat) :
    Int32 × List Remark :=
  let word := Text.firstWord text
  match Text.int32? word with
  | some distance => (distance, [])
  | none =>
    if word.isEmpty then (0, [.noTarget i])
    else
      match labels.get? word with
      | some address =>
        let distance : Int := address - next
        (Int32.ofInt distance,
          if distance = 0 then [.targetIsNext i (String.ofList word)] else [])
      | none => (0, [.undefinedLabel (String.ofList word)])

/-- A register, which is a number or the name of one. -/
def readRegister (i : Instruction) (text : List Char) : Int32 × List Remark :=
  let word := Text.firstWord text
  match Text.int32? word with
  | some index => (index, [])
  | none =>
    let bytes := Bytes.ofChars word
    match Operand.read? bytes with
    | some (.register index, used) =>
      if used = bytes.length then (index.toUInt32.toInt32, [])
      else (0, [.notARegister i (String.ofList word)])
    | _ => (0, [.notARegister i (String.ofList word)])

/-- The bytes of an instruction that is to stand at the given offset. -/
def encode (i : Instruction) (labels : Labels) (text : List Char) (offset : Nat) :
    List UInt8 × List Remark :=
  match i.argument with
  | none =>
    ([i.firstByte 0], if isComment text then [] else [.operandIgnored i (String.ofList text)])
  | some .operand =>
    let (operand, remarks) := i.readOperand text
    (i.firstByte operand.mode.number :: operand.bytes, remarks)
  | some .displacement =>
    let (distance, remarks) := i.readTarget labels text (offset + i.size)
    (i.firstByte 0 :: Bytes.ofWord distance.toUInt32, remarks)
  | some .register =>
    let (index, remarks) := i.readRegister text
    (i.firstByte 0 :: Bytes.ofWord index.toUInt32, remarks)

/-- The labels and the text have no influence on the length. -/
theorem length_encode (i : Instruction) (labels : Labels) (text : List Char) (offset : Nat) :
    (i.encode labels text offset).1.length = i.size := by
  cases h : i.argument with
  | none => simp [encode, size, h]
  | some kind => cases kind <;> simp [encode, size, argumentSize, h]

end Instruction

end StackMachine
