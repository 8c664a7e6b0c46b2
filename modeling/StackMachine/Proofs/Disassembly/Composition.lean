import StackMachine.Proofs.Disassembly.Reread

namespace StackMachine

open Text

/-- The fault of the same bytes `n` bytes further on. -/
def Fault.raise (n : Nat) : Fault → Fault
  | .unexpectedEnd offset requested available => .unexpectedEnd (offset + n) requested available
  | .invalidInstruction byte offset => .invalidInstruction byte (offset + n)
  | .invalidMode i mode offset => .invalidMode i mode (offset + n)
  | fault => fault

/-- A fault of the instruction that starts at an offset, with so many bytes from there on. The
offset of an argument that is cut off is the one behind the first byte. -/
inductive Fault.OfInstruction (offset left : Nat) : Fault → Prop where
  | byte (byte : UInt8) : OfInstruction offset left (.invalidInstruction byte offset)
  | mode (i : Instruction) (mode : Mode) : OfInstruction offset left (.invalidMode i mode offset)
  | argument (h : left < 5) : OfInstruction offset left (.unexpectedEnd (offset + 1) 4 (left - 1))

namespace Decoded

/-- The same instruction `n` bytes further on. -/
def raise (n : Nat) (d : Decoded) : Decoded :=
  { d with offset := d.offset + n, next := d.next + n }

theorem text_raise (n : Nat) (d : Decoded) : (d.raise n).text = d.text := rfl

theorem ofBytes_raise (offset n : Nat) (bytes : List UInt8) :
    ofBytes (offset + n) bytes =
      ((ofBytes offset bytes).map (raise n)).mapError (Fault.raise n) := by
  cases bytes with
  | nil => rfl
  | cons byte rest =>
    simp only [ofBytes]
    cases Instruction.ofOpcode? (Instruction.splitByte byte).1 with
    | none => rfl
    | some i =>
      simp only
      split
      · rfl
      · split
        · cases Bytes.word? rest with
          | some w => simp [Except.map, Except.mapError, raise, Nat.add_right_comm]
          | none => simp [Except.map, Except.mapError, Fault.raise, Nat.add_right_comm]
        · simp [Except.map, Except.mapError, raise, Nat.add_right_comm]

theorem ofInstruction_of_ofBytes {offset : Nat} {bytes : List UInt8} {fault : Fault}
    (h : ofBytes offset bytes = .error fault) (hleft : bytes ≠ []) :
    fault.OfInstruction offset bytes.length := by
  cases bytes with
  | nil => exact absurd rfl hleft
  | cons byte rest =>
    simp only [ofBytes] at h
    cases hi : Instruction.ofOpcode? (Instruction.splitByte byte).1 with
    | none =>
      rw [hi] at h
      cases h
      exact .byte byte
    | some i =>
      simp only [hi] at h
      split at h
      · cases h
        exact .mode i _
      · split at h
        · rcases Bytes.word?_spec rest with ⟨w, after, hw, -⟩ | ⟨hw, hshort⟩
          · rw [hw] at h
            cases h
          · rw [hw] at h
            cases h
            exact .argument (Nat.succ_lt_succ hshort)
        · cases h

end Decoded

namespace Coded

/-- Instructions that stand further on are the same but for their offsets. -/
theorem sequence_raise (n offset : Nat) (items : List Coded) :
    sequence (offset + n) items = (sequence offset items).map (Decoded.raise n) := by
  induction items generalizing offset with
  | nil => rfl
  | cons c rest ih =>
    rw [sequence, sequence, List.map_cons, Nat.add_right_comm, ih]
    simp [decoded, Decoded.raise, Nat.add_right_comm]

theorem code_append (first second : List Coded) :
    code (first ++ second) = code first ++ code second :=
  List.flatMap_append

theorem sequence_append (offset : Nat) (first second : List Coded) :
    sequence offset (first ++ second) =
      sequence offset first ++ sequence (offset + (code first).length) second := by
  induction first generalizing offset with
  | nil => rfl
  | cons c rest ih =>
    rw [List.cons_append, sequence, sequence, ih, code_cons, List.length_append, length_bytes,
      Nat.add_assoc, List.cons_append]

end Coded

namespace Disassembly

theorem Stops.raise {offset : Nat} {rest : List UInt8} {fault? : Option Fault}
    (h : Stops offset rest fault?) (n : Nat) :
    Stops (offset + n) rest (fault?.map (Fault.raise n)) := by
  cases h with
  | done => exact .done
  | fault hleft hf =>
    refine .fault hleft ?_
    rw [Decoded.ofBytes_raise, hf]
    rfl

/-- The lines of the instructions, without those before the first one. -/
def instructionLines (d : Disassembly) : String :=
  String.join (d.code.toList.map fun i => i.text ++ "\n")

theorem text_eq (d : Disassembly) : d.text = header d.version ++ d.instructionLines := rfl

section Behind

variable {p q r : Program}

/-- Behind a body that is disassembled to its end, another one is disassembled as it is alone. -/
theorem ofProgram_append (h : (ofProgram p).fault = none) (hv : r.version = p.version)
    (hb : r.body = p.body ++ q.body) :
    ofProgram r = ⟨p.version, (ofProgram p).code ++ (ofProgram q).code.map (.raise p.body.size),
      (ofProgram q).fault.map (.raise p.body.size)⟩ := by
  -- The joint body is the items of both, and behind them stand the bytes that the second stops at.
  obtain ⟨first, hfirst, hp, hcode⟩ := items_of_program h
  obtain ⟨second, rest, hsecond, hq, hstops, hcode'⟩ := body_of_program q
  have hsize : p.body.size = (Coded.code first).length := by
    rw [← Array.length_toList, hp]
  have hproper : ∀ c ∈ first ++ second, c.Proper :=
    List.forall_mem_append.mpr ⟨hfirst, hsecond⟩
  have hbody : r.body.toList = Coded.code (first ++ second) ++ rest := by
    rw [hb, Array.toList_append, hp, hq, Coded.code_append, List.append_assoc]
  have hraised := hstops.raise p.body.size
  rw [Nat.add_assoc, Nat.add_comm _ p.body.size, hsize, ← List.length_append,
    ← Coded.code_append] at hraised
  rw [ofProgram_of_body hproper hraised hbody, hv, hsize]
  congr 1
  apply Array.toList_inj.mp
  rw [Coded.sequence_append, Coded.sequence_raise, Array.toList_append, Array.toList_map, hcode,
    hcode']

theorem text_append (h : (ofProgram p).fault = none) (hv : r.version = p.version)
    (hb : r.body = p.body ++ q.body) :
    (ofProgram r).text = (ofProgram p).text ++ (ofProgram q).instructionLines := by
  rw [text_eq, text_eq, String.append_assoc, ofProgram_append h hv hb]
  congr 1
  simp [instructionLines, Decoded.text_raise, Function.comp_def]

end Behind

/-- A fault is of the first instruction that is not found. What was found before is all that there
is to the code before it. -/
theorem code_before_fault {r : Program} {fault : Fault} (h : (ofProgram r).fault = some fault) :
    ∃ offset, Program.headerSize ≤ offset ∧ offset < r.size ∧
      Decoded.read r.bytes offset = .error fault ∧
      fault.OfInstruction offset (r.size - offset) ∧
      ∀ p : Program, p.version = r.version →
        p.body = r.body.extract 0 (offset - Program.headerSize) →
          ofProgram p = ⟨r.version, (ofProgram r).code, none⟩ := by
  obtain ⟨items, rest, hproper, hbody, hstops, hcode⟩ := body_of_program r
  rw [h] at hstops
  cases hstops with
  | fault hleft hf =>
    have hdrop : r.bytes.toList.drop (Program.headerSize + (Coded.code items).length) = rest := by
      rw [← List.drop_drop, ← r.toList_body, hbody, List.drop_left]
    have hlength := congrArg List.length hdrop
    have hpos := List.length_pos_of_ne_nil hleft
    rw [List.length_drop, Array.length_toList] at hlength
    have hread := @Decoded.read_eq r.bytes (Program.headerSize + (Coded.code items).length)
      (by omega)
    rw [hdrop, hf] at hread
    refine ⟨_, Nat.le_add_right _ _, ?_, hread, ?_, ?_⟩
    · rw [Program.size]
      omega
    · rw [Program.size, hlength]
      exact Decoded.ofInstruction_of_ofBytes hf hleft
    · intro p hv hp
      have hbefore : p.body.toList = Coded.code items ++ [] := by
        rw [hp, Nat.add_sub_cancel_left, Array.toList_extract, List.extract_eq_take_drop, hbody]
        simp
      rw [ofProgram_of_body hproper .done hbefore, hv, ← hcode]

/-- All that is found can be told apart in the text. -/
theorem lines_text (p : Program) :
    lines (ofProgram p).text.toList =
      (openingLines p.version ++ (ofProgram p).code.toList.map Decoded.text).map String.toList := by
  obtain ⟨items, -, hproper, -, -, hcode⟩ := body_of_program p
  have htidy : ∀ i ∈ (ofProgram p).code.toList, Tidy i.text.toList := by
    intro i hi
    have htext := List.mem_map_of_mem (f := Decoded.text) hi
    rw [hcode, Coded.map_text_sequence] at htext
    obtain ⟨c, hc, hsame⟩ := List.mem_map.mp htext
    rw [← hsame]
    exact (Coded.readFrom_text (hproper c hc)).tidy
  rw [toList_text, lines_tidy (tidy_lines htidy)]
  rfl

end Disassembly

open Disassembly

/-- Where two bodies stand one behind the other and the first is disassembled to its end, its text
is written and then the instructions of the second, and the disassembly ends as that of the second
does. Where a disassembly ends with a fault, it has written the text of what stands before the
instruction with the fault, and that has no fault. -/
theorem disassembly_composes :
    (∀ p q r : Program, (ofProgram p).fault = none → r.version = p.version →
      r.body = p.body ++ q.body → ∀ written flushFails,
        (ofProgram r).write ⟨written, none, flushFails⟩ =
          ((ofProgram p).code ++ (ofProgram q).code.map (.raise p.body.size),
            (ofProgram q).fault.map (.raise p.body.size),
            ⟨written ++ Bytes.ofString ((ofProgram p).text ++ (ofProgram q).instructionLines),
              none, flushFails⟩)) ∧
      ∀ (r : Program) (fault : Fault), (ofProgram r).fault = some fault →
        ∃ offset, Program.headerSize ≤ offset ∧ offset < r.size ∧
          Decoded.read r.bytes offset = .error fault ∧
          fault.OfInstruction offset (r.size - offset) ∧
          ∀ p : Program, p.version = r.version →
            p.body = r.body.extract 0 (offset - Program.headerSize) →
              (ofProgram p).fault = none ∧
              (∀ written flushFails, (ofProgram r).write ⟨written, none, flushFails⟩ =
                ((ofProgram p).code, some fault,
                  ⟨written ++ Bytes.ofString (ofProgram p).text, none, flushFails⟩)) ∧
              lines (ofProgram p).text.toList =
                (openingLines p.version ++ (ofProgram p).code.toList.map Decoded.text).map
                  String.toList := by
  constructor
  · intro p q r h hv hb written flushFails
    rw [write_unlimited, text_append h hv hb, ofProgram_append h hv hb]
  · intro r fault h
    obtain ⟨offset, hle, hlt, hread, hof, hbefore⟩ := code_before_fault h
    refine ⟨offset, hle, hlt, hread, hof, ?_⟩
    intro p hv hp
    have hsame := hbefore p hv hp
    have htext : (ofProgram r).text = (ofProgram p).text := by
      rw [hsame]
      rfl
    refine ⟨by rw [hsame], ?_, lines_text p⟩
    intro written flushFails
    rw [write_unlimited, htext, h, hsame]

/-- A push that the end of the program cuts off behind a push and a pop. -/
theorem disassembly_composes_cut :
    (ofProgram (.ofBody #[8, 5, 0, 0, 0, 12, 8, 1])).write {} =
        (#[⟨16, .push, .immediate, 5, 21⟩, ⟨21, .pop, .immediate, 0, 22⟩],
          some (.unexpectedEnd 23 4 1),
          { written := (Bytes.ofString ((ofProgram (.ofBody #[8, 5, 0, 0, 0])).text ++
            "POP\n")).toArray }) ∧
      (ofProgram (.ofBody #[8, 5, 0, 0, 0, 12])).fault = none ∧
      lines (ofProgram (.ofBody #[8, 5, 0, 0, 0, 12])).text.toList =
        ["# Binary file version: 3".toList, "# Disassembler version: 3".toList, [],
          "PUSH 5".toList, "POP".toList] := by
  have hwrite := disassembly_composes.1 (.ofBody #[8, 5, 0, 0, 0]) (.ofBody #[12, 8, 1])
    (.ofBody #[8, 5, 0, 0, 0, 12, 8, 1]) (by decide +kernel) (by decide +kernel)
    (by decide +kernel) #[] false
  have hcut : (ofProgram (.ofBody #[8, 5, 0, 0, 0, 12, 8, 1])).fault =
      some (.unexpectedEnd 23 4 1) := by decide +kernel
  obtain ⟨offset, -, -, -, hof, hbefore⟩ := disassembly_composes.2 _ _ hcut
  cases hof with
  | argument =>
    obtain ⟨hnone, -, hlines⟩ := hbefore (.ofBody #[8, 5, 0, 0, 0, 12]) (by decide +kernel)
      (by decide +kernel)
    exact ⟨hwrite.trans (by decide +kernel), hnone, hlines.trans (by decide +kernel)⟩

end StackMachine
