import StackMachine.Proofs.Disassembly.Reassembly

namespace StackMachine

open Text

/-- Taking in lines adds the code of proper instructions that can be written down. -/
theorem Draft.coded_of_addLines {final : Bool} {d d' : Draft} {number : Nat} {lines : List String}
    (h : addLines final d number lines = (d', none)) :
    ∃ items : List Coded, (∀ c ∈ items, c.Proper ∧ c.Writable) ∧
      d'.body.toList = d.body.toList ++ Coded.code items := by
  induction lines generalizing d number with
  | nil =>
    cases h
    exact ⟨[], nofun, by simp [Coded.code]⟩
  | cons line rest ih =>
    obtain ⟨d₁, htakes, hrest⟩ := takes_of_addLines h
    obtain ⟨items, hitems, hbody⟩ := ih hrest
    have hfirst := htakes.body_eq
    -- Only instructions add to the body; the code of any other line is empty.
    by_cases hs : ∃ i text, Statement.ofSource line = .instruction i text
    · obtain ⟨i, text, hs⟩ := hs
      refine ⟨i.coded d.labels text d.offset :: items, ?_, ?_⟩
      · rintro c hc
        rcases List.mem_cons.mp hc with rfl | hc
        · exact ⟨i.proper_coded _ _ _, i.writable_coded _ _ _⟩
        · exact hitems c hc
      · rw [hbody, hfirst, hs, Coded.code_cons, i.bytes_coded, List.append_assoc]
        rfl
    · refine ⟨items, hitems, ?_⟩
      have hnone : (Statement.ofSource line).code d.labels d.offset = [] := by
        cases hc : Statement.ofSource line with
        | instruction i text => exact absurd ⟨i, text, hc⟩ hs
        | _ => rfl
      rw [hbody, hfirst, hnone, List.append_nil]

/-- The body of an assembled program is such code. -/
theorem coded_of_assemble {limits : Limits} {lines : List String} {a : Assembly}
    (ha : assemble limits lines = .ok a) :
    ∃ items : List Coded, (∀ c ∈ items, c.Proper ∧ c.Writable) ∧
      ∃ body, a.program = .ofBody body ∧ body.toList = Coded.code items := by
  obtain ⟨d, -, hfinal, hprogram, -⟩ := passes_of_assemble ha
  obtain ⟨items, hitems, hbody⟩ := Draft.coded_of_addLines hfinal
  exact ⟨items, hitems, _, hprogram, by simpa using hbody⟩

/-- The text of a disassembly of the newest version has these lines. -/
theorem Disassembly.trimmedLines_text {d : Disassembly} {items : List Coded}
    (hv : d.version = Program.newest)
    (hd : d.code.toList.map Decoded.text = items.map Coded.text)
    (hw : ∀ c ∈ items, c.WrittenAs c.text.toList) :
    trimmedLines d.text = openingLines Program.newest ++ items.map Coded.text := by
  rw [trimmedLines_of_tidy hd fun c hc => (hw c hc).tidy, hv]

/-- An assembled program is disassembled to its end: all of the text is written. The text is
assembled to the same body wherever there is room for it, with no warnings. -/
theorem assemble_disassemble_assemble {limits : Limits} {lines : List String} {a : Assembly}
    (ha : assemble limits lines = .ok a) :
    (Disassembly.ofProgram a.program).write {} =
        ((Disassembly.ofProgram a.program).code, none,
          { written := (Bytes.ofString (Disassembly.ofProgram a.program).text).toArray }) ∧
      ∀ limits' : Limits, a.program.body.size ≤ limits'.body →
        ∃ b, assembleText limits' (Disassembly.ofProgram a.program).text = .ok b ∧
          b.warnings = #[] ∧ b.program.body = a.program.body := by
  obtain ⟨items, hitems, body, hprogram, hbody⟩ := coded_of_assemble ha
  have hdisassembly : Disassembly.ofProgram a.program =
      ⟨Program.newest, (Coded.sequence Program.headerSize items).toArray, none⟩ := by
    rw [hprogram, Disassembly.ofProgram_code (fun c hc => (hitems c hc).1),
      Program.version_ofBody]
    rw [Program.toList_ofBody, hbody]
  have hwritten : ∀ c ∈ items, c.WrittenAs c.text.toList := fun c hc =>
    Coded.writtenAs_text (hitems c hc).1 (hitems c hc).2
  have hlines := Disassembly.trimmedLines_text (congrArg Disassembly.version hdisassembly)
    (by rw [hdisassembly]; exact Coded.map_text_sequence items _) hwritten
  have hcode : body = (Coded.code items).toArray := by rw [← hbody, Array.toArray_toList]
  constructor
  · rw [Disassembly.write_unlimited, hdisassembly]
    simp
  · intro limits' hroom
    rw [hprogram, Program.body_ofBody, hcode, List.size_toArray] at hroom
    obtain ⟨b, hb, hwarnings, hagain⟩ :=
      assemble_written (Disassembly.openingLines_comments Program.newest) hwritten hroom
    refine ⟨b, ?_, hwarnings, ?_⟩
    · rw [assembleText, hlines, hb]
    · rw [hagain, hprogram, hcode]

/-- A target without a label and an offset that is too wide are written as what they were taken
for. -/
theorem assemble_disassemble_assemble_wide :
    ∃ a, assemble ⟨0, 10⟩ ["JMP NOWHERE", "PUSH [RAX + 8388608]"] = .ok a ∧
      a.program.body.size ≤ 10 ∧ a.warnings.size = 2 ∧
      ∃ b, assembleText ⟨0, 10⟩ (Disassembly.ofProgram a.program).text = .ok b ∧
        b.warnings = #[] ∧ b.program.body = a.program.body := by
  have hrun {a : Assembly}
      (ha : assemble ⟨0, 10⟩ ["JMP NOWHERE", "PUSH [RAX + 8388608]"] = .ok a)
      (hroom : a.program.body.size ≤ 10) :
      ∃ b, assembleText ⟨0, 10⟩ (Disassembly.ofProgram a.program).text = .ok b ∧
        b.warnings = #[] ∧ b.program.body = a.program.body := by
    obtain ⟨-, hagain⟩ := assemble_disassemble_assemble ha
    exact hagain ⟨0, 10⟩ hroom
  refine ⟨_, rfl, by decide +kernel, by decide +kernel, ?_⟩
  exact hrun rfl (by decide +kernel)

end StackMachine
