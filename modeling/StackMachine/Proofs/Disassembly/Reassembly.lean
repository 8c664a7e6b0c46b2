import StackMachine.Proofs.Assembly.Layout
import StackMachine.Proofs.Disassembly.Lines

namespace StackMachine

open Text

namespace Coded

/-- A line of source stands for an instruction, whatever the labels are and wherever it stands.
There may be something to remark on it. -/
structure ReadFrom (c : Coded) (line : List Char) : Prop where
  tidy : Tidy line
  encoded : ∃ text, Statement.ofLine line = .instruction c.instruction text ∧
    ∀ labels offset, (c.instruction.encode labels text offset).1 = c.bytes

theorem WrittenAs.readFrom {c : Coded} {line : List Char} (h : c.WrittenAs line) :
    c.ReadFrom line := by
  obtain ⟨htidy, text, hstatement, hencode⟩ := h
  exact ⟨htidy, text, hstatement, fun labels offset => congrArg Prod.fst (hencode labels offset)⟩

/-- There is nothing to remark on what an instruction is written as. -/
theorem WrittenAs.remarks_eq {c : Coded} {line : String} (h : c.WrittenAs line.toList)
    (labels : Labels) (offset : Nat) : (Statement.ofSource line).remarks labels offset = [] := by
  obtain ⟨htidy, text, hstatement, hencode⟩ := h
  rw [Statement.ofSource, htidy.trim, hstatement, Statement.remarks, hencode]

end Coded

namespace Draft

variable {final : Bool} {d : Draft} {number : Nat}

theorem addLine_fits {line : List Char} {i : Instruction} {text : List Char}
    (hs : Statement.ofLine line = .instruction i text)
    (hroom : d.body.size + i.size ≤ d.limits.body) :
    ∃ d', d.addLine final number line = (d', none) := by
  have hlength := i.length_encode d.labels text d.offset
  simp only [addLine, hs, hlength]
  rw [warn_frame, if_neg (Nat.not_lt.mpr hroom)]
  exact ⟨_, rfl⟩

/-- Lines that stand for instructions add the code of those to a draft. -/
theorem addLines_readFrom {items : List Coded} {read : Coded → Coded}
    (hr : ∀ c ∈ items, (read c).ReadFrom c.text.toList)
    (hroom : d.body.size + (Coded.code (items.map read)).length ≤ d.limits.body) :
    ∃ d', addLines final d number (items.map Coded.text) = (d', none) ∧ d'.limits = d.limits ∧
      d'.body.toList = d.body.toList ++ Coded.code (items.map read) := by
  induction items generalizing d number with
  | nil => exact ⟨d, rfl, rfl, by simp [Coded.code]⟩
  | cons c rest ih =>
    obtain ⟨htidy, text, hstatement, hencode⟩ := hr c List.mem_cons_self
    rw [List.map_cons, Coded.code_cons, List.length_append, Coded.length_bytes] at hroom
    rw [← htidy.trim] at hstatement
    obtain ⟨d₁, hline⟩ := @addLine_fits final d number _ _ _ hstatement (by omega)
    have htakes := takes_of_addLine hline
    rw [hstatement] at htakes
    have hsize := htakes.size_body
    have hbody := htakes.body_eq
    rw [Statement.code, hencode] at hbody
    rw [Statement.size] at hsize
    obtain ⟨d', hrest, hlimits, hbody'⟩ := @ih d₁ (number + 1)
      (fun c' hc' => hr c' (List.mem_cons_of_mem c hc')) (by rw [hsize, htakes.limits_eq]; omega)
    refine ⟨d', ?_, hlimits.trans htakes.limits_eq, ?_⟩
    · simp only [List.map_cons, addLines, hline, hrest]
    · rw [hbody', hbody, List.map_cons, Coded.code_cons, List.append_assoc]

theorem addLines_comments {lines : List String}
    (h : ∀ line ∈ lines, Statement.ofSource line = .comment) :
    addLines final d number lines = (d, none) := by
  induction lines generalizing number with
  | nil => rfl
  | cons line rest ih =>
    have hline : d.addLine final number (trim line.toList) = (d, none) := by
      have hs := h line List.mem_cons_self
      simp only [Statement.ofSource] at hs
      simp only [addLine, hs]
    simp only [addLines, hline]
    exact ih fun line' hl => h line' (List.mem_cons_of_mem line hl)

/-- Where there is nothing to remark on the lines, there are no new warnings. -/
theorem warnings_addLines_silent {d' : Draft} {lines : List String}
    (hs : ∀ line ∈ lines, ∀ labels offset, (Statement.ofSource line).remarks labels offset = [])
    (h : addLines final d number lines = (d', none)) : d'.warnings = d.warnings := by
  induction lines generalizing d number with
  | nil =>
    cases h
    rfl
  | cons line rest ih =>
    obtain ⟨d₁, htakes, hrest⟩ := takes_of_addLines h
    rw [ih (fun line' hl => hs line' (List.mem_cons_of_mem line hl)) hrest, htakes.warnings_eq,
      hs line List.mem_cons_self, warn_nil]

end Draft

section Reassembly

variable {limits : Limits} {comments : List String} {items : List Coded} {read : Coded → Coded}

/-- A pass over comments and lines that stand for instructions finds the code of those. -/
theorem Draft.pass_readFrom {final : Bool} {d : Draft}
    (hc : ∀ line ∈ comments, Statement.ofSource line = .comment)
    (hr : ∀ c ∈ items, (read c).ReadFrom c.text.toList)
    (hroom : (Coded.code (items.map read)).length ≤ d.limits.body) :
    ∃ d', d.pass final (comments ++ items.map Coded.text) = (d', none) ∧ d'.limits = d.limits ∧
      d'.body.toList = Coded.code (items.map read) := by
  obtain ⟨d', hd', hlimits, hbody⟩ :=
    @addLines_readFrom final { d with body := #[], listing := #[], warnings := #[] }
      (1 + comments.length) items read hr (by simpa using hroom)
  refine ⟨d', ?_, hlimits, by simpa using hbody⟩
  rw [pass, addLines_append _ (addLines_comments hc), hd']

/-- Comments and lines that stand for instructions are assembled to the code of those. -/
theorem assemble_readFrom (hc : ∀ line ∈ comments, Statement.ofSource line = .comment)
    (hr : ∀ c ∈ items, (read c).ReadFrom c.text.toList)
    (hroom : (Coded.code (items.map read)).length ≤ limits.body) :
    ∃ b, assemble limits (comments ++ items.map Coded.text) = .ok b ∧
      b.program = .ofBody (Coded.code (items.map read)).toArray := by
  obtain ⟨d₁, hfirst, hlimits, -⟩ := @Draft.pass_readFrom _ _ _ false (.empty limits) hc hr hroom
  have hroom₁ : (Coded.code (items.map read)).length ≤ d₁.limits.body := by
    rw [hlimits]
    exact hroom
  obtain ⟨d₂, hfinal, -, hbody⟩ := @Draft.pass_readFrom _ _ _ true d₁ hc hr hroom₁
  refine ⟨⟨.ofBody d₂.body, d₂.listing, d₂.warnings⟩, ?_, ?_⟩
  · simp only [assemble, Draft.assemble, hfirst, hfinal]
  · simp only [← hbody, Array.toArray_toList]

/-- An assembly of lines without remarks has no warnings. -/
theorem warnings_of_assemble {lines : List String} {a : Assembly}
    (hs : ∀ line ∈ lines, ∀ labels offset, (Statement.ofSource line).remarks labels offset = [])
    (ha : assemble limits lines = .ok a) : a.warnings = #[] := by
  obtain ⟨d, -, hfinal, -, hwarnings⟩ := passes_of_assemble ha
  rw [hwarnings]
  exact Draft.warnings_addLines_silent hs hfinal

/-- Comments and lines that instructions are written as are assembled to the code of those. -/
theorem assemble_written (hc : ∀ line ∈ comments, Statement.ofSource line = .comment)
    (hw : ∀ c ∈ items, c.WrittenAs c.text.toList)
    (hroom : (Coded.code items).length ≤ limits.body) :
    ∃ b, assemble limits (comments ++ items.map Coded.text) = .ok b ∧ b.warnings = #[] ∧
      b.program = .ofBody (Coded.code items).toArray := by
  have hread : ∀ c ∈ items, (id c).ReadFrom c.text.toList := fun c hc => (hw c hc).readFrom
  obtain ⟨b, hb, hprogram⟩ := @assemble_readFrom limits comments items id hc hread
    (by rwa [List.map_id])
  rw [List.map_id] at hprogram
  refine ⟨b, hb, warnings_of_assemble ?_ hb, hprogram⟩
  intro line hl labels offset
  rcases List.mem_append.mp hl with hcomment | hitem
  · rw [hc line hcomment]
    rfl
  · obtain ⟨c, hmem, rfl⟩ := List.mem_map.mp hitem
    exact (hw c hmem).remarks_eq labels offset

end Reassembly

namespace Disassembly

/-- The lines before the first instruction of a disassembly. -/
def openingLines (version : UInt32) : List String :=
  ["# Binary file version: " ++ decimal version.toNat, "# Disassembler version: 3", ""]

theorem tidy_versionLine (version : UInt32) :
    Tidy ("# Binary file version: " ++ decimal version.toNat).toList := by
  rw [String.toList_append, toList_decimal]
  have hall : "# Binary file version: ".toList.all (fun c => decide (IsPrintable c)) = true := by
    decide
  refine ⟨?_, ?_, ?_⟩
  · intro c hc
    rcases List.mem_append.mp hc with hc | hc
    · exact of_decide_eq_true (List.all_eq_true.mp hall c hc)
    · exact printable_digitsOf hc
  · rintro c ⟨⟩
    decide
  · intro c hc
    rw [List.getLast?_append_of_ne_nil _ (digitsOf_ne_nil _)] at hc
    exact isBlank_digitsOf (List.mem_of_getLast? hc)

theorem openingLines_tidy (version : UInt32) : ∀ line ∈ openingLines version, Tidy line.toList := by
  have hrest : ∀ line ∈ ["# Disassembler version: 3", ""], Tidy line.toList := by decide +kernel
  exact List.forall_mem_cons.mpr ⟨tidy_versionLine version, hrest⟩

/-- A disassembly that is assembled starts with comments. -/
theorem openingLines_comments (version : UInt32) :
    ∀ line ∈ openingLines version, Statement.ofSource line = .comment := by
  have hrest : ∀ line ∈ ["# Disassembler version: 3", ""],
      Statement.ofSource line = .comment := by
    decide +kernel
  refine List.forall_mem_cons.mpr ⟨?_, hrest⟩
  have hcomment : isComment ("# Binary file version: " ++ decimal version.toNat).toList = true := by
    rw [String.toList_append]
    rfl
  rw [Statement.ofSource, (tidy_versionLine version).trim, Statement.ofLine, if_pos hcomment]

theorem toList_header (version : UInt32) : (header version).toList =
    (openingLines version).flatMap fun line => line.toList ++ ['\n'] := by
  have hrest : ("\n" ++ ("# Disassembler version: " ++ (decimal format ++ "\n\n"))).toList =
      ['\n'] ++ ("# Disassembler version: 3".toList ++ ['\n'] ++ ("".toList ++ ['\n'])) := by
    decide +kernel
  unfold header openingLines
  simp only [String.append_assoc, List.flatMap_cons, List.flatMap_nil, List.append_nil]
  rw [String.toList_append, String.toList_append, hrest, String.toList_append]
  simp only [List.append_assoc]

/-- The text of a disassembly is the header and a line for each instruction. -/
theorem toList_text (d : Disassembly) :
    d.text.toList = (openingLines d.version ++ d.code.toList.map Decoded.text).flatMap
      fun line => line.toList ++ ['\n'] := by
  unfold text
  rw [String.toList_append, toList_header, List.flatMap_append]
  congr 1
  induction d.code.toList with
  | nil => rfl
  | cons c rest ih => simp [String.join_cons, ih]

theorem tidy_lines {d : Disassembly} (ht : ∀ i ∈ d.code.toList, Tidy i.text.toList) :
    ∀ line ∈ openingLines d.version ++ d.code.toList.map Decoded.text, Tidy line.toList := by
  intro line hl
  rcases List.mem_append.mp hl with hheader | hitem
  · exact openingLines_tidy d.version line hheader
  · obtain ⟨i, hi, rfl⟩ := List.mem_map.mp hitem
    exact ht i hi

/-- The text of a disassembly of tidy lines has these lines. -/
theorem trimmedLines_of_tidy {d : Disassembly} {items : List Coded}
    (hd : d.code.toList.map Decoded.text = items.map Coded.text)
    (ht : ∀ c ∈ items, Tidy c.text.toList) :
    trimmedLines d.text = openingLines d.version ++ items.map Coded.text := by
  have htidy : ∀ i ∈ d.code.toList, Tidy i.text.toList := by
    intro i hi
    obtain ⟨c, hc, hcode⟩ := List.mem_map.mp (hd ▸ List.mem_map_of_mem hi)
    exact hcode ▸ ht c hc
  rw [trimmedLines_tidy (toList_text d) (tidy_lines htidy), hd]

end Disassembly

end StackMachine
