import StackMachine.Disassembly
import StackMachine.Proofs.Coded
import StackMachine.Proofs.Program

namespace StackMachine

namespace Coded

/-- The bytes of instructions that stand one after another. -/
def code (items : List Coded) : List UInt8 :=
  items.flatMap bytes

/-- What is decoded where instructions stand one after another from an offset on. -/
def sequence : Nat → List Coded → List Decoded
  | _, [] => []
  | offset, c :: rest => c.decoded offset :: sequence (offset + c.instruction.size) rest

@[simp] theorem code_cons (c : Coded) (rest : List Coded) :
    code (c :: rest) = c.bytes ++ code rest := rfl

def text (c : Coded) : String :=
  (c.decoded 0).text

/-- Where an instruction stands is not said in its text. -/
theorem text_decoded (c : Coded) (offset : Nat) : (c.decoded offset).text = c.text := rfl

theorem map_text_sequence (items : List Coded) (offset : Nat) :
    (sequence offset items).map Decoded.text = items.map text := by
  induction items generalizing offset with
  | nil => rfl
  | cons c rest ih => rw [sequence, List.map_cons, List.map_cons, ih, text_decoded]

end Coded

theorem Bytes.ofString_append (s t : String) :
    ofString (s ++ t) = ofString s ++ ofString t := by
  simp [ofString]

theorem appendList_assoc {α : Type} (xs : Array α) (l m : List α) : xs ++ l ++ m = xs ++ (l ++ m) :=
  Array.ext' (by simp)

namespace Disassembly

variable {bytes : Array UInt8}

theorem walk_of_read {offset : Nat} {d : Decoded} (h : Decoded.read bytes offset = .ok d)
    (found : Array Decoded) : walk bytes offset found = walk bytes d.next (found.push d) := by
  obtain ⟨hlt, hle⟩ := Decoded.lt_next_of_read h
  rw [walk, if_pos (by omega)]
  split
  · rename_i fault hfault
    rw [h] at hfault
    cases hfault
  · rename_i d' hd
    rw [h] at hd
    cases hd
    rfl

/-- A walk goes over proper instructions. -/
theorem walk_code {items : List Coded} (hp : ∀ c ∈ items, c.Proper) {before after : List UInt8}
    (hb : bytes.toList = before ++ Coded.code items ++ after) (found : Array Decoded) :
    walk bytes before.length found =
      walk bytes (before ++ Coded.code items).length
        (found ++ (Coded.sequence before.length items).toArray) := by
  -- What stands before the instructions grows from one to the next, and what stands after stays.
  induction items generalizing before found with
  | nil => simp [Coded.code, Coded.sequence]
  | cons c rest ih =>
    have hc := hp c List.mem_cons_self
    have hfirst : bytes.toList = before ++ c.bytes ++ (Coded.code rest ++ after) := by
      rw [hb, Coded.code_cons]
      simp only [List.append_assoc]
    have hrest : bytes.toList = (before ++ c.bytes) ++ Coded.code rest ++ after := by
      rw [hb, Coded.code_cons]
      simp only [List.append_assoc]
    have hnext : (c.decoded before.length).next = (before ++ c.bytes).length := by
      simp [Coded.decoded]
    rw [walk_of_read (hc.read hfirst), hnext,
      ih (fun c' hc' => hp c' (List.mem_cons_of_mem c hc')) hrest, Coded.code_cons, Coded.sequence]
    simp

/-- A walk stops where these bytes are left, at the end or with a fault. -/
inductive Stops (offset : Nat) : List UInt8 → Option Fault → Prop where
  | done : Stops offset [] none
  | fault {rest : List UInt8} {fault : Fault} (hleft : rest ≠ [])
      (hf : Decoded.ofBytes offset rest = .error fault) : Stops offset rest (some fault)

theorem walk_of_stops {before rest : List UInt8} {fault? : Option Fault}
    (hb : bytes.toList = before ++ rest) (h : Stops before.length rest fault?)
    (found : Array Decoded) : walk bytes before.length found = (found, fault?) := by
  have hsize : bytes.size = before.length + rest.length := by
    rw [← Array.length_toList, hb, List.length_append]
  cases h with
  | done =>
    rw [walk, if_neg (by simp [hsize])]
  | fault hleft hf =>
    have hlt := List.length_pos_of_ne_nil hleft
    have hread := Decoded.read_append hb
    rw [hf] at hread
    rw [walk, if_pos (by omega)]
    split
    · rename_i fault hfault
      rw [hread] at hfault
      cases hfault
      rfl
    · rename_i d hd
      rw [hread] at hd
      cases hd

/-- What a walk finds is code of proper instructions that stands there, and it stops behind them. -/
theorem items_of_walk {offset : Nat} {found code : Array Decoded} {fault? : Option Fault}
    (h : walk bytes offset found = (code, fault?)) :
    ∃ (items : List Coded) (rest : List UInt8), (∀ c ∈ items, c.Proper) ∧
      bytes.toList.drop offset = Coded.code items ++ rest ∧
      Stops (offset + (Coded.code items).length) rest fault? ∧
      code = found ++ (Coded.sequence offset items).toArray := by
  fun_induction walk bytes offset found with
  | case1 offset found hlt fault hfault =>
    cases h
    rw [Decoded.read_eq (Nat.le_of_lt hlt)] at hfault
    refine ⟨[], bytes.toList.drop offset, List.forall_mem_nil _, rfl, .fault ?_ hfault,
      by simp [Coded.sequence]⟩
    rw [Ne, List.drop_eq_nil_iff, Array.length_toList]
    omega
  | case2 offset found hlt d hd hnext ih =>
    obtain ⟨items, rest, hproper, hdrop, hstops, hcode⟩ := ih h
    obtain ⟨c, hc, rfl, hbytes⟩ := Coded.of_read hd
    refine ⟨c :: items, rest, List.forall_mem_cons.mpr ⟨hc, hproper⟩, ?_, ?_, ?_⟩
    · rw [hbytes, hdrop, Coded.code_cons, List.append_assoc]
    · rw [Coded.code_cons, List.length_append, Coded.length_bytes, ← Nat.add_assoc]
      exact hstops
    · rw [hcode, Coded.sequence]
      simp [Coded.decoded]
  | case3 offset found hend =>
    cases h
    refine ⟨[], [], List.forall_mem_nil _, ?_, .done, by simp [Coded.sequence]⟩
    exact List.drop_eq_nil_of_le (by rw [Array.length_toList]; omega)

/-- A program whose body is code of proper instructions, up to where a walk stops, is disassembled
up to there. -/
theorem ofProgram_of_body {items : List Coded} (hp : ∀ c ∈ items, c.Proper) {rest : List UInt8}
    {fault? : Option Fault}
    (hs : Stops (Program.headerSize + (Coded.code items).length) rest fault?) {p : Program}
    (hb : p.body.toList = Coded.code items ++ rest) :
    ofProgram p = ⟨p.version, (Coded.sequence Program.headerSize items).toArray, fault?⟩ := by
  have hbytes : p.bytes.toList =
      p.bytes.toList.take Program.headerSize ++ Coded.code items ++ rest := by
    rw [List.append_assoc, ← hb, p.toList_body, List.take_append_drop]
  have hwalk := walk_code hp hbytes #[]
  rw [← p.length_header_bytes, ← List.length_append] at hs
  rw [walk_of_stops hbytes hs, p.length_header_bytes] at hwalk
  simp only [ofProgram, Program.entry, hwalk]
  simp

/-- The body of any program is such code. -/
theorem body_of_program (p : Program) :
    ∃ (items : List Coded) (rest : List UInt8), (∀ c ∈ items, c.Proper) ∧
      p.body.toList = Coded.code items ++ rest ∧
      Stops (Program.headerSize + (Coded.code items).length) rest (ofProgram p).fault ∧
      (ofProgram p).code.toList = Coded.sequence Program.headerSize items := by
  have hwalk : walk p.bytes Program.headerSize #[] = ((ofProgram p).code, (ofProgram p).fault) :=
    rfl
  obtain ⟨items, rest, hproper, hdrop, hstops, hcode⟩ := items_of_walk hwalk
  exact ⟨items, rest, hproper, by rw [p.toList_body, hdrop], hstops, by simp [hcode]⟩

/-- A program whose body is code of proper instructions is disassembled to its end. -/
theorem ofProgram_code {items : List Coded} (hp : ∀ c ∈ items, c.Proper) {p : Program}
    (hb : p.bytes.toList = Program.header ++ Coded.code items) :
    ofProgram p = ⟨p.version, (Coded.sequence Program.headerSize items).toArray, none⟩ := by
  apply ofProgram_of_body hp .done
  rw [List.append_nil, p.toList_body, hb, ← Program.length_header, List.drop_left]

/-- The body of a program that is disassembled to its end is such code to its end. -/
theorem items_of_program {p : Program} (h : (ofProgram p).fault = none) :
    ∃ items : List Coded, (∀ c ∈ items, c.Proper) ∧ p.body.toList = Coded.code items ∧
      (ofProgram p).code.toList = Coded.sequence Program.headerSize items := by
  obtain ⟨items, rest, hproper, hbody, hstops, hcode⟩ := body_of_program p
  rw [h] at hstops
  cases hstops with
  | done => exact ⟨items, hproper, by rw [hbody, List.append_nil], hcode⟩

/-- A sink without a limit takes all instructions, a line each. -/
theorem writeCode_unlimited (code : List Decoded) (written : Array UInt8)
    (flushFails : Bool) (done : Array Decoded) :
    writeCode code ⟨written, none, flushFails⟩ done =
      (done ++ code, none,
        ⟨written ++ Bytes.ofString (String.join (code.map fun i => i.text ++ "\n")), none,
          flushFails⟩) := by
  induction code generalizing written done with
  | nil => simp [writeCode, Bytes.ofString, Bytes.ofChars]
  | cons i rest ih =>
    simp only [writeCode, Sink.write]
    rw [ih]
    simp [String.join_cons, Bytes.ofString_append, appendList_assoc]

/-- A sink without a limit takes all of the text. -/
theorem write_unlimited (d : Disassembly) (written : Array UInt8) (flushFails : Bool) :
    d.write ⟨written, none, flushFails⟩ =
      (d.code, d.fault, ⟨written ++ Bytes.ofString d.text, none, flushFails⟩) := by
  simp only [write, Sink.write]
  rw [writeCode_unlimited]
  simp [text, Bytes.ofString_append, appendList_assoc]

end Disassembly

end StackMachine
