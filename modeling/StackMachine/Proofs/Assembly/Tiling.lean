import StackMachine.Proofs.Assembly.Listing
import StackMachine.Proofs.Disassembly.Lines

namespace StackMachine

/-- A line that has a row in the listing. -/
def Statement.isListed : Statement → Bool
  | label _ => true
  | instruction .. => true
  | _ => false

/-- The lines of a source that have rows, without the blanks around them. -/
def listedLines (lines : List String) : List String :=
  (lines.filter fun line => (Statement.ofSource line).isListed).map fun line =>
    String.ofList (Text.trim line.toList)

/-- A row has what its line stands for: no bytes if the line binds a label, and else the bytes of an
instruction with the mnemonic of the line. -/
inductive Row.Fits (r : Row) : Prop
  | label {name : List Char} (binds : Statement.ofLine r.line.toList = .label name)
      (empty : r.bytes = [])
  | instruction {c : Coded} {text : List Char}
      (emits : Statement.ofLine r.line.toList = .instruction c.instruction text)
      (proper : c.Proper) (code : r.bytes = c.bytes)

/-- Rows stand one after another from an offset on. -/
def Tiles : Nat → List Row → Prop
  | _, [] => True
  | offset, r :: rest => r.offset = offset ∧ r.Fits ∧ Tiles (offset + r.bytes.length) rest

theorem listedLines_cons (line : String) (rest : List String) :
    listedLines (line :: rest) =
      (if (Statement.ofSource line).isListed then [String.ofList (Text.trim line.toList)]
        else []) ++ listedLines rest := by
  unfold listedLines
  by_cases h : (Statement.ofSource line).isListed <;> simp [h]

theorem tiles_append {offset : Nat} {before after : List Row} :
    Tiles offset (before ++ after) ↔
      Tiles offset before ∧ Tiles (offset + (before.flatMap Row.bytes).length) after := by
  induction before generalizing offset with
  | nil => simp [Tiles]
  | cons r rest ih =>
    simp only [List.cons_append, Tiles, ih, List.flatMap_cons, List.length_append, Nat.add_assoc,
      and_assoc]

/-- The row of a line fits it. -/
theorem Statement.tiles_rows {labels : Labels} {offset : Nat} {line : List Char} :
    Tiles offset ((ofLine line).rows labels offset line) := by
  cases hs : ofLine line with
  | label name => exact ⟨rfl, .label (by simpa using hs) rfl, trivial⟩
  | instruction i text =>
    have hline : ofLine (String.ofList line).toList =
        .instruction (i.coded labels text offset).instruction text := by
      simpa using hs
    exact ⟨rfl, .instruction hline (i.proper_coded labels text offset)
      (i.bytes_coded labels text offset).symm, trivial⟩
  | _ => trivial

theorem Statement.map_line_rows (s : Statement) (labels : Labels) (offset : Nat)
    (line : List Char) :
    (s.rows labels offset line).map Row.line =
      if s.isListed then [String.ofList line] else [] := by
  cases s <;> rfl

namespace Row

variable {r : Row}

/-- An instruction has at least one byte. -/
theorem Fits.bytes_eq_nil_iff (h : r.Fits) :
    r.bytes = [] ↔ ∃ name, Statement.ofLine r.line.toList = .label name := by
  cases h with
  | label hs hempty => exact ⟨fun _ => ⟨_, hs⟩, fun _ => hempty⟩
  | instruction hs _ hcode => simp [hs, hcode, Coded.bytes]

theorem Fits.length_bytes (h : r.Fits) (hne : r.bytes ≠ []) :
    ∃ i text, Statement.ofLine r.line.toList = .instruction i text ∧ r.bytes.length = i.size := by
  cases h with
  | label _ hempty => exact absurd hempty hne
  | instruction hs _ hcode => exact ⟨_, _, hs, by rw [hcode, Coded.length_bytes]⟩

end Row

namespace Draft

variable {final : Bool} {d d' : Draft} {number : Nat} {fault : Option Fault}

/-- A line that is refused leaves body and listing as they are. -/
theorem frame_of_refused {line : List Char} {refusal : Fault}
    (h : d.addLine final number line = (d', some refusal)) :
    d'.body = d.body ∧ d'.listing = d.listing := by
  unfold addLine at h
  split at h
  · cases h
  · cases h
  · cases h
  · split at h
    · cases h
      exact ⟨rfl, rfl⟩
    · cases h
  · simp only at h
    split at h
    · cases h
      rw [warn_frame]
      exact ⟨rfl, rfl⟩
    · cases h

/-- Lines add rows that stand one after another, and their bytes to the body, up to the first line
that is refused. -/
theorem tiles_of_addLines {lines : List String} (h : addLines final d number lines = (d', fault)) :
    ∃ taken rows, taken <+: lines ∧ (fault = none → taken = lines) ∧
      rows.map Row.line = listedLines taken ∧ Tiles d.offset rows ∧
      d'.body.toList = d.body.toList ++ rows.flatMap Row.bytes ∧
      d'.listing.toList = d.listing.toList ++ rows := by
  induction lines generalizing d number with
  | nil =>
    cases h
    exact ⟨[], [], List.prefix_refl _, fun _ => rfl, rfl, trivial, by simp, by simp⟩
  | cons line rest ih =>
    simp only [addLines] at h
    split at h
    · rename_i d₁ hline
      have hadds := adds_of_addLine hline
      obtain ⟨taken, rows, hprefix, hall, hlines, htiles, hbody, hlisting⟩ := ih h
      have hoffset : d₁.offset = d.offset +
          (((Statement.ofSource line).rows d.labels d.offset (Text.trim line.toList)).flatMap
            Row.bytes).length := by
        simp only [offset, ← Array.length_toList, hadds.body_eq, Statement.ofSource,
          List.length_append, Nat.add_assoc]
      refine ⟨line :: taken, _, List.cons_prefix_cons.mpr ⟨rfl, hprefix⟩, ?_, ?_,
        tiles_append.mpr ⟨Statement.tiles_rows, hoffset ▸ htiles⟩, ?_, ?_⟩
      · intro hnone
        rw [hall hnone]
      · rw [List.map_append, hlines, listedLines_cons, Statement.map_line_rows]
        rfl
      · rw [hbody, hadds.body_eq, List.flatMap_append, List.append_assoc]
      · rw [hlisting, hadds.listing_eq, List.append_assoc]
    · rename_i d₁ refusal hline
      cases h
      obtain ⟨hbody, hlisting⟩ := frame_of_refused hline
      exact ⟨[], [], List.nil_prefix, fun hnone => absurd hnone (Option.some_ne_none refusal), rfl,
        trivial, by simp [hbody], by simp [hlisting]⟩

/-- The same for a pass, which starts with nothing. -/
theorem tiles_of_pass {lines : List String} (h : d.pass final lines = (d', fault)) :
    ∃ taken, taken <+: lines ∧ (fault = none → taken = lines) ∧
      d'.listing.toList.map Row.line = listedLines taken ∧
      Tiles Program.headerSize d'.listing.toList ∧
      d'.body.toList = d'.listing.toList.flatMap Row.bytes := by
  obtain ⟨taken, rows, hprefix, hall, hlines, htiles, hbody, hlisting⟩ := tiles_of_addLines h
  obtain rfl : d'.listing.toList = rows := by simpa using hlisting
  exact ⟨taken, hprefix, hall, hlines, htiles, by simpa using hbody⟩

end Draft

/-- The first word of what is printed for an instruction is its mnemonic. -/
theorem Coded.firstWord_text (c : Coded) (offset : Nat) :
    Text.firstWord (c.decoded offset).text.toList = c.instruction.mnemonic.toList := by
  obtain ⟨hall, -, -⟩ := c.instruction.mnemonic_spec
  have hword (rest : List Char) (hr : ∀ b ∈ rest.head?, Text.isBlank b = true) :
      Text.firstWord (c.instruction.mnemonic.toList ++ rest) = c.instruction.mnemonic.toList :=
    takeWhile_run (fun b hb => by simp [(hall b hb).1]) fun b hb => by simp [hr b hb]
  have hspace (argument : List Char) : ∀ b ∈ (' ' :: argument).head?, Text.isBlank b = true := by
    rintro b ⟨⟩
    decide
  simp only [Decoded.text, decoded]
  split
  · simpa using hword [] (by simp)
  · simpa using hword _ (hspace _)
  · simpa using hword _ (hspace _)
  · simpa using hword _ (hspace _)

/-- The first word of a line with an instruction is the mnemonic. -/
theorem Statement.firstWord_of_instruction {line text : List Char} {i : Instruction}
    (h : ofLine line = .instruction i text) : Text.firstWord line = i.mnemonic.toList := by
  unfold ofLine at h
  split at h
  · cases h
  · simp only at h
    split at h
    · split at h <;> cases h
    · split at h
      · rename_i found hfound
        cases h
        rw [Instruction.mnemonic_of_ofMnemonic? hfound, String.toList_ofList]
      · cases h

/-- The rows that have code, as a walk finds them. -/
theorem Tiles.exists_items {offset : Nat} {rows : List Row} (h : Tiles offset rows) :
    ∃ items : List Coded, (∀ c ∈ items, c.Proper) ∧
      rows.flatMap Row.bytes = Coded.code items ∧
      (Coded.sequence offset items).map Decoded.offset =
        (rows.filter (!·.bytes.isEmpty)).map Row.offset ∧
      (Coded.sequence offset items).map (fun d => Text.firstWord d.text.toList) =
        (rows.filter (!·.bytes.isEmpty)).map fun r => Text.firstWord r.line.toList := by
  induction rows generalizing offset with
  | nil => exact ⟨[], nofun, rfl, rfl, rfl⟩
  | cons r rest ih =>
    obtain ⟨rfl, hfits, hrest⟩ := h
    obtain ⟨items, hproper, hcode, hoffsets, hwords⟩ := ih hrest
    cases hfits with
    | label hs hempty =>
      rw [hempty] at hoffsets hwords
      exact ⟨items, hproper, by simp [hempty, hcode], by simpa [hempty] using hoffsets,
        by simpa [hempty] using hwords⟩
    | @instruction c text hs hc hbytes =>
      rw [hbytes, Coded.length_bytes] at hoffsets hwords
      have hfound : (r :: rest).filter (!·.bytes.isEmpty) =
          r :: rest.filter (!·.bytes.isEmpty) := by simp [hbytes, Coded.bytes]
      refine ⟨c :: items, List.forall_mem_cons.mpr ⟨hc, hproper⟩, ?_, ?_, ?_⟩
      · rw [List.flatMap_cons, hbytes, hcode, Coded.code_cons]
      · rw [hfound, List.map_cons, Coded.sequence, List.map_cons, hoffsets]
        rfl
      · rw [hfound, List.map_cons, Coded.sequence, List.map_cons, hwords, Coded.firstWord_text,
          Statement.firstWord_of_instruction hs]

/-- Where rows stand one after another, each of them starts where those before it end. -/
theorem Tiles.offset_eq {offset : Nat} {before after : List Row} {row : Row}
    (h : Tiles offset (before ++ row :: after)) :
    row.offset = offset + (before.flatMap Row.bytes).length ∧ row.Fits := by
  obtain ⟨-, hoffset, hfits, -⟩ := tiles_append.mp h
  exact ⟨hoffset, hfits⟩

/-- After any pass the listing has a row for each line that binds a label or has an instruction, up
to the first line that was refused. The bytes of the rows make up the body, and each row starts
where the rows before it end. A row has no bytes if its line binds a label, and only then; otherwise
it has as many as the mnemonic asks for. The disassembly of an assembled program comes to its end,
over the rows that have bytes and with their mnemonics. -/
theorem listing_tiles_program (d : Draft) (final : Bool) (lines : List String) :
    let (d', fault) := d.pass final lines
    let rows := d'.listing.toList
    rows.flatMap Row.bytes = d'.body.toList ∧
    (∃ taken, taken <+: lines ∧ (fault = none → taken = lines) ∧
      rows.map Row.line = listedLines taken) ∧
    (∀ before row after, rows = before ++ row :: after →
      row.offset = Program.headerSize + (before.flatMap Row.bytes).length ∧
      (row.bytes = [] ↔ ∃ name, Statement.ofLine row.line.toList = .label name) ∧
      (row.bytes ≠ [] → ∃ i text, Statement.ofLine row.line.toList = .instruction i text ∧
        row.bytes.length = i.size)) ∧
    ∀ limits a, assemble limits lines = .ok a →
      let found := Disassembly.ofProgram a.program
      let coded := a.listing.toList.filter (!·.bytes.isEmpty)
      found.fault = none ∧
      found.code.toList.map Decoded.offset = coded.map Row.offset ∧
      found.code.toList.map (fun d => Text.firstWord d.text.toList) =
        coded.map fun r => Text.firstWord r.line.toList := by
  rcases hpass : d.pass final lines with ⟨d', fault⟩
  obtain ⟨taken, hprefix, hall, hlines, htiles, hbody⟩ := Draft.tiles_of_pass hpass
  refine ⟨hbody.symm, ⟨taken, hprefix, hall, hlines⟩, ?_, ?_⟩
  · rintro before row after hrows
    obtain ⟨hoffset, hfits⟩ := Tiles.offset_eq (hrows ▸ htiles)
    exact ⟨hoffset, hfits.bytes_eq_nil_iff, hfits.length_bytes⟩
  · intro limits a ha
    obtain ⟨_, e, -, hfinal, rfl⟩ := assemble_eq_ok_iff.mp ha
    obtain ⟨-, -, -, -, htiles', hbody'⟩ := Draft.tiles_of_pass hfinal
    obtain ⟨items, hproper, hcode, hoffsets, hwords⟩ := htiles'.exists_items
    have hprogram : (Program.ofBody e.body).bytes.toList = Program.header ++ Coded.code items := by
      rw [Program.toList_ofBody, hbody', hcode]
    simp only [Disassembly.ofProgram_code hproper hprogram]
    exact ⟨trivial, hoffsets, hwords⟩

end StackMachine
