import StackMachine.Proofs.Coded
import StackMachine.Proofs.Program

namespace StackMachine

namespace Statement

/-- What a line says, with or without blanks around it. -/
def ofSource (line : String) : Statement :=
  ofLine (Text.trim line.toList)

/-- The bytes that a line stands for. -/
def code (labels : Labels) (offset : Nat) : Statement → List UInt8
  | instruction i text => (i.encode labels text offset).1
  | _ => []

/-- What there is to remark on a line. -/
def remarks (labels : Labels) (offset : Nat) : Statement → List Remark
  | labelWithoutName => [.labelWithoutName]
  | unknown word => [.unknownInstruction (String.ofList word)]
  | instruction i text => (i.encode labels text offset).2
  | _ => []

def size : Statement → Nat
  | instruction i _ => i.size
  | _ => 0

theorem length_code (s : Statement) (labels : Labels) (offset : Nat) :
    (s.code labels offset).length = s.size := by
  cases s with
  | instruction i text => exact i.length_encode labels text offset
  | _ => rfl

end Statement

def codeSize (lines : List String) : Nat :=
  (lines.map fun line => (Statement.ofSource line).size).sum

@[simp] theorem codeSize_nil : codeSize [] = 0 := rfl

@[simp] theorem codeSize_cons (line : String) (rest : List String) :
    codeSize (line :: rest) = (Statement.ofSource line).size + codeSize rest := by
  simp [codeSize]

@[simp] theorem codeSize_append (before rest : List String) :
    codeSize (before ++ rest) = codeSize before + codeSize rest := by
  simp [codeSize]

namespace Draft

/-- What became of a draft when a line was taken in. -/
structure Takes (d : Draft) (final : Bool) (number : Nat) (s : Statement) (d' : Draft) : Prop where
  limits_eq : d'.limits = d.limits
  body_eq : d'.body.toList = d.body.toList ++ s.code d.labels d.offset
  body_le : d.body.size ≤ d.limits.body → d'.body.size ≤ d.limits.body
  warnings_eq : d'.warnings = (d.warn final number (s.remarks d.labels d.offset)).warnings
  labels_eq : (∀ name, s ≠ .label name) → d'.labels = d.labels
  define_eq : ∀ name, s = .label name → d.labels.define name d.offset = .ok d'.labels

theorem warn_frame (d : Draft) (final : Bool) (number : Nat) (remarks : List Remark) :
    d.warn final number remarks =
      { d with warnings := (d.warn final number remarks).warnings } := by
  unfold warn
  split <;> rfl

@[simp] theorem warn_nil (d : Draft) (final : Bool) (number : Nat) :
    d.warn final number [] = d := by
  simp [warn]

theorem takes_of_addLine {d d' : Draft} {final : Bool} {number : Nat} {line : List Char}
    (h : d.addLine final number line = (d', none)) :
    d.Takes final number (Statement.ofLine line) d' := by
  unfold addLine at h
  split at h
  · rename_i hs
    cases h
    rw [hs]
    exact ⟨rfl, by simp [Statement.code], id, by simp [Statement.remarks], fun _ => rfl, nofun⟩
  · rename_i hs
    cases h
    rw [hs, warn_frame]
    exact ⟨rfl, by simp [Statement.code], id, rfl, fun _ => rfl, nofun⟩
  · rename_i word hs
    cases h
    rw [hs, warn_frame]
    exact ⟨rfl, by simp [Statement.code], id, rfl, fun _ => rfl, nofun⟩
  · rename_i name hs
    split at h
    · cases h
    · rename_i labels hdefine
      cases h
      rw [hs]
      refine ⟨rfl, by simp [Statement.code], id, by simp [Statement.remarks],
        fun hn => absurd rfl (hn name), ?_⟩
      rintro other ⟨⟩
      exact hdefine
  · rename_i i text hs
    simp only at h
    split at h
    · cases h
    · rename_i hfits
      cases h
      rw [hs]
      rw [warn_frame] at hfits ⊢
      refine ⟨rfl, by simp [Statement.code], fun _ => ?_, rfl, fun _ => rfl, nofun⟩
      simpa [← Array.length_toList] using hfits

theorem Takes.size_body {d d' : Draft} {final : Bool} {number : Nat} {s : Statement}
    (h : d.Takes final number s d') : d'.body.size = d.body.size + s.size := by
  rw [← Array.length_toList, h.body_eq, List.length_append, s.length_code, Array.length_toList]

/-- Lines are taken in one after another. -/
theorem addLines_append {final : Bool} {d d₁ : Draft} {number : Nat} {before : List String}
    (rest : List String) (h : addLines final d number before = (d₁, none)) :
    addLines final d number (before ++ rest) = addLines final d₁ (number + before.length) rest := by
  induction before generalizing d number with
  | nil =>
    cases h
    rfl
  | cons line before ih =>
    simp only [addLines, List.cons_append] at h ⊢
    split at h
    · rename_i d₂ hline
      simp only [ih h, List.length_cons]
      congr 1
      omega
    · cases h

/-- Lines that are taken in are taken in up to any of them. -/
theorem addLines_of_append {final : Bool} {d d' : Draft} {number : Nat} {before rest : List String}
    (h : addLines final d number (before ++ rest) = (d', none)) :
    ∃ d₁, addLines final d number before = (d₁, none) ∧
      addLines final d₁ (number + before.length) rest = (d', none) := by
  induction before generalizing d number with
  | nil => exact ⟨d, rfl, h⟩
  | cons line before ih =>
    simp only [addLines, List.cons_append] at h ⊢
    split at h
    · rename_i d₂ hline
      obtain ⟨d₁, hbefore, hrest⟩ := ih h
      refine ⟨d₁, by simp only [hbefore], ?_⟩
      rw [← hrest, List.length_cons]
      congr 1
      omega
    · cases h

theorem takes_of_addLines {final : Bool} {d d' : Draft} {number : Nat} {line : String}
    {rest : List String} (h : addLines final d number (line :: rest) = (d', none)) :
    ∃ d₁, d.Takes final number (Statement.ofSource line) d₁ ∧
      addLines final d₁ (number + 1) rest = (d', none) := by
  simp only [addLines] at h
  split at h
  · rename_i d₁ hline
    exact ⟨d₁, takes_of_addLine hline, h⟩
  · cases h

theorem Takes.warnings_prefix {d d' : Draft} {final : Bool} {number : Nat} {s : Statement}
    (h : d.Takes final number s d') : d.warnings.toList <+: d'.warnings.toList := by
  rw [h.warnings_eq]
  unfold warn
  split
  · simp
  · exact List.prefix_refl _

/-- Taking in lines only adds to the body and the warnings. -/
theorem addLines_ok {final : Bool} {d d' : Draft} {number : Nat} {lines : List String}
    (h : addLines final d number lines = (d', none)) :
    d'.limits = d.limits ∧ d'.body.size = d.body.size + codeSize lines ∧
      (d.body.size ≤ d.limits.body → d'.body.size ≤ d.limits.body) ∧
      d.body.toList <+: d'.body.toList ∧ d.warnings.toList <+: d'.warnings.toList := by
  induction lines generalizing d number with
  | nil =>
    cases h
    exact ⟨rfl, rfl, id, List.prefix_refl _, List.prefix_refl _⟩
  | cons line rest ih =>
    obtain ⟨d₁, htakes, hrest⟩ := takes_of_addLines h
    obtain ⟨hlimits, hsize, hle, hbody, hwarnings⟩ := ih hrest
    refine ⟨hlimits.trans htakes.limits_eq, ?_, ?_, ?_, htakes.warnings_prefix.trans hwarnings⟩
    · rw [hsize, htakes.size_body, codeSize_cons, Nat.add_assoc]
    · intro hd
      rw [htakes.limits_eq] at hle
      exact hle (htakes.body_le hd)
    · rw [htakes.body_eq] at hbody
      exact (List.prefix_append _ _).trans hbody

end Draft

/-- An offset where the code of a line starts, or where the program ends. -/
def Boundary (lines : List String) (offset : Nat) : Prop :=
  ∃ before, before <+: lines ∧ offset = Program.headerSize + codeSize before

/-- Every label stands at a boundary. -/
def Labels.AtBoundaries (labels : Labels) (lines : List String) : Prop :=
  ∀ entry ∈ labels.entries, Boundary lines entry.2

namespace Labels

theorem mem_of_lookup {hash : UInt64} {entries : List (UInt64 × Nat)} {offset : Nat}
    (h : lookup hash entries = some offset) : (hash, offset) ∈ entries := by
  induction entries with
  | nil => cases h
  | cons entry rest ih =>
    obtain ⟨other, old⟩ := entry
    simp only [lookup] at h
    split at h
    · rename_i heq
      cases h
      simp [heq]
    · exact List.mem_cons_of_mem _ (ih h)

theorem of_mem_move {hash : UInt64} {offset : Nat} {entries : List (UInt64 × Nat)}
    {entry : UInt64 × Nat} (h : entry ∈ move hash offset entries) :
    entry.2 = offset ∨ entry ∈ entries := by
  induction entries with
  | nil => exact .inr h
  | cons first rest ih =>
    obtain ⟨other, old⟩ := first
    simp only [move] at h
    split at h
    · rcases List.mem_cons.mp h with rfl | hrest
      · exact .inl rfl
      · exact .inr (List.mem_cons_of_mem _ hrest)
    · rcases List.mem_cons.mp h with rfl | hrest
      · exact .inr List.mem_cons_self
      · exact (ih hrest).imp_right (List.mem_cons_of_mem _)

/-- A defined label is at the given offset, and the others are where they were. -/
theorem of_mem_define {labels labels' : Labels} {name : List Char} {offset : Nat}
    (h : labels.define name offset = .ok labels') {entry : UInt64 × Nat}
    (he : entry ∈ labels'.entries) : entry.2 = offset ∨ entry ∈ labels.entries := by
  unfold define at h
  simp only at h
  split at h
  · cases h
    exact of_mem_move he
  · split at h
    · cases h
    · cases h
      rcases List.mem_append.mp he with hold | hnew
      · exact .inr hold
      · rw [List.mem_singleton] at hnew
        exact .inl (congrArg Prod.snd hnew)

theorem AtBoundaries.get {labels : Labels} {lines : List String} (h : labels.AtBoundaries lines)
    {name : List Char} {offset : Nat} (hn : labels.get? name = some offset) :
    Boundary lines offset :=
  h _ (mem_of_lookup hn)

end Labels

/-- Labels stay at boundaries while lines are taken in that stand there. -/
theorem Draft.atBoundaries_addLines {final : Bool} {d d' : Draft} {number : Nat}
    {lines before rest after : List String} (hlines : lines = before ++ rest ++ after)
    (hd : d.body.size = codeSize before) (hl : d.labels.AtBoundaries lines)
    (h : addLines final d number rest = (d', none)) : d'.labels.AtBoundaries lines := by
  induction rest generalizing d number before with
  | nil =>
    cases h
    exact hl
  | cons line rest ih =>
    obtain ⟨d₁, htakes, hrest⟩ := takes_of_addLines h
    have hhere : Boundary lines d.offset :=
      ⟨before, ⟨line :: rest ++ after, by rw [hlines, List.append_assoc]⟩, by rw [offset, hd]⟩
    have hl₁ : d₁.labels.AtBoundaries lines := by
      by_cases hs : ∃ name, Statement.ofSource line = .label name
      · obtain ⟨name, hs⟩ := hs
        intro entry he
        rcases Labels.of_mem_define (htakes.define_eq name hs) he with hnew | hold
        · rw [hnew]
          exact hhere
        · exact hl entry hold
      · rw [htakes.labels_eq (not_exists.mp hs)]
        exact hl
    have hlines₁ : lines = (before ++ [line]) ++ rest ++ after := by
      rw [hlines]
      simp
    have hd₁ : d₁.body.size = codeSize (before ++ [line]) := by
      rw [htakes.size_body, hd]
      simp
    exact ih hlines₁ hd₁ hl₁ hrest

/-- The final pass over the first of some lines, after the first pass over all of them. -/
def Draft.finalPass (limits : Limits) (lines before : List String) : Draft :=
  (((Draft.empty limits).pass false lines).1.pass true before).1

/-- The final pass over some lines emits an instruction with an operand text at an offset, and these
are the labels as it knows them there. -/
def Emitted (limits : Limits) (lines : List String) (i : Instruction) (text : List Char)
    (offset : Nat) (labels : Labels) : Prop :=
  ∃ before line after, lines = before ++ line :: after ∧
    Statement.ofSource line = .instruction i text ∧
    (Draft.finalPass limits lines before).offset = offset ∧
    (Draft.finalPass limits lines before).labels = labels

section Assembled

variable {limits : Limits} {lines : List String} {a : Assembly}

/-- Both passes over all lines went through. -/
theorem passes_of_assemble (ha : assemble limits lines = .ok a) :
    ∃ d, (Draft.empty limits).pass false lines = (d, none) ∧
      d.pass true lines = (Draft.finalPass limits lines lines, none) ∧
      a.program = .ofBody (Draft.finalPass limits lines lines).body ∧
      a.warnings = (Draft.finalPass limits lines lines).warnings := by
  simp only [assemble, Draft.assemble] at ha
  split at ha
  · cases ha
  · rename_i d hfirst
    split at ha
    · cases ha
    · rename_i d' hfinal
      cases ha
      have hlast : Draft.finalPass limits lines lines = d' := by
        simp only [Draft.finalPass, hfirst, hfinal]
      exact ⟨d, hfirst, by rw [hfinal, hlast], by rw [hlast], by rw [hlast]⟩

/-- The final pass takes in the lines before any place between two lines, with the labels that the
first pass left, and then the lines after it. -/
theorem finalPass_split (ha : assemble limits lines = .ok a) {before rest : List String}
    (hl : lines = before ++ rest) :
    ∃ d, (Draft.empty limits).pass false lines = (d, none) ∧
      d.pass true before = (Draft.finalPass limits lines before, none) ∧
      (Draft.finalPass limits lines before).addLines true (1 + before.length) rest =
        (Draft.finalPass limits lines lines, none) := by
  obtain ⟨d, hfirst, hfinal, -, -⟩ := passes_of_assemble ha
  rw [Draft.pass] at hfinal
  rw [hl] at hfinal
  obtain ⟨d₁, hbefore, hrest⟩ := Draft.addLines_of_append hfinal
  have hhere : Draft.finalPass limits lines before = d₁ := by
    simp only [Draft.finalPass, Draft.pass] at hfirst ⊢
    rw [hfirst, hbefore]
  rw [← hl] at hrest
  rw [hhere]
  exact ⟨d, hfirst, hbefore, hrest⟩

/-- The final pass comes by every place between two lines, with the code of the lines before in the
body and all labels at boundaries. -/
theorem finalPass_of_assemble (ha : assemble limits lines = .ok a) {before rest : List String}
    (hl : lines = before ++ rest) :
    (Draft.finalPass limits lines before).addLines true (1 + before.length) rest =
        (Draft.finalPass limits lines lines, none) ∧
      (Draft.finalPass limits lines before).limits = limits ∧
      (Draft.finalPass limits lines before).body.size = codeSize before ∧
      (Draft.finalPass limits lines before).body.size ≤ limits.body ∧
      (Draft.finalPass limits lines before).labels.AtBoundaries lines := by
  obtain ⟨d, hfirst, hbefore, hrest⟩ := finalPass_split ha hl
  have hwhole : lines = [] ++ lines ++ [] := by simp
  have hnone : (Labels.empty limits.labels).AtBoundaries lines := by
    intro entry he
    cases he
  have hlabels : d.labels.AtBoundaries lines :=
    Draft.atBoundaries_addLines hwhole rfl hnone hfirst
  obtain ⟨hlimits, hsize, hle, -, -⟩ := Draft.addLines_ok hbefore
  obtain ⟨hlimits', -, -, -, -⟩ := Draft.addLines_ok hfirst
  have hsame : d.limits = limits := hlimits'
  refine ⟨hrest, hlimits.trans hsame, ?_, ?_, ?_⟩
  · simpa using hsize
  · exact (hle (Nat.zero_le _)).trans_eq (congrArg Limits.body hsame)
  · have hsplit : lines = [] ++ before ++ rest := by rw [List.nil_append, hl]
    refine Draft.atBoundaries_addLines hsplit ?_ ?_ hbefore
    · rfl
    · exact hlabels

theorem offset_finalPass (ha : assemble limits lines = .ok a) {before rest : List String}
    (hl : lines = before ++ rest) :
    (Draft.finalPass limits lines before).offset = Program.headerSize + codeSize before := by
  obtain ⟨-, -, hsize, -⟩ := finalPass_of_assemble ha hl
  rw [Draft.offset, hsize]

/-- The program is the header and what both passes agree on. -/
theorem size_of_assemble (ha : assemble limits lines = .ok a) :
    a.program.size = Program.headerSize + codeSize lines ∧ codeSize lines ≤ limits.body := by
  obtain ⟨-, -, -, hprogram, -⟩ := passes_of_assemble ha
  obtain ⟨-, -, hsize, hle, -⟩ := finalPass_of_assemble ha (List.append_nil lines).symm
  rw [hsize] at hle
  refine ⟨?_, hle⟩
  rw [hprogram, Program.size, ← Array.length_toList, Program.toList_ofBody, List.length_append,
    Program.length_header, Array.length_toList, hsize]

theorem Boundary.bounds (ha : assemble limits lines = .ok a) {offset : Nat}
    (hb : Boundary lines offset) :
    Program.headerSize ≤ offset ∧ offset ≤ a.program.size := by
  obtain ⟨before, ⟨rest, hl⟩, ho⟩ := hb
  have hsize := (size_of_assemble ha).1
  rw [← hl, codeSize_append] at hsize
  omega

theorem Emitted.boundary (ha : assemble limits lines = .ok a) {i : Instruction}
    {text : List Char} {offset : Nat} {labels : Labels}
    (he : Emitted limits lines i text offset labels) :
    Boundary lines offset ∧ Boundary lines (offset + i.size) ∧ labels.AtBoundaries lines := by
  obtain ⟨before, line, after, hl, hs, rfl, rfl⟩ := he
  obtain ⟨-, -, -, -, hlabels⟩ := finalPass_of_assemble ha hl
  have hoffset := offset_finalPass ha hl
  refine ⟨⟨before, ⟨line :: after, hl.symm⟩, hoffset⟩, ⟨before ++ [line], ?_, ?_⟩, hlabels⟩
  · exact ⟨after, by simp [hl]⟩
  · simp [hoffset, hs, Statement.size, Nat.add_assoc]

/-- What is emitted is decoded at its offset. If the assembly has no remarks, there is none on this
instruction. -/
theorem Emitted.read (ha : assemble limits lines = .ok a) {i : Instruction} {text : List Char}
    {offset : Nat} {labels : Labels} (he : Emitted limits lines i text offset labels) :
    Decoded.read a.program.bytes offset = .ok ((i.coded labels text offset).decoded offset) ∧
      (a.warnings = #[] → (i.encode labels text offset).2 = []) := by
  obtain ⟨-, -, -, hprogram, hwarnings⟩ := passes_of_assemble ha
  obtain ⟨before, line, after, hl, hs, rfl, rfl⟩ := he
  obtain ⟨hrest, -, hsize, -, -⟩ := finalPass_of_assemble ha hl
  obtain ⟨d₁, htakes, hlast⟩ := Draft.takes_of_addLines hrest
  obtain ⟨-, -, -, ⟨later, hlater⟩, hkept⟩ := Draft.addLines_ok hlast
  have hcode := htakes.body_eq
  have hremarks := htakes.warnings_eq
  rw [hs] at hcode hremarks
  generalize Draft.finalPass limits lines before = d at *
  constructor
  · have hbytes : a.program.bytes.toList =
        (Program.header ++ d.body.toList) ++ (i.coded d.labels text d.offset).bytes ++ later := by
      rw [hprogram, Program.toList_ofBody, ← hlater, hcode, i.bytes_coded]
      simp [Statement.code]
    have hoffset : (Program.header ++ d.body.toList).length = d.offset := by
      rw [List.length_append, Program.length_header, Array.length_toList]
      rfl
    have hread := (i.proper_coded d.labels text d.offset).read hbytes
    rw [hoffset] at hread
    exact hread
  · intro hnone
    rw [hwarnings] at hnone
    rw [hnone, hremarks] at hkept
    simp only [Draft.warn, Statement.remarks, ↓reduceIte] at hkept
    simp at hkept
    exact hkept.2

/-- An emitted instruction starts at every boundary but the end of the program. -/
theorem Boundary.emitted_or_end (ha : assemble limits lines = .ok a) {offset : Nat}
    (hb : Boundary lines offset) :
    (∃ i text labels, Emitted limits lines i text offset labels) ∨ offset = a.program.size := by
  obtain ⟨before, ⟨rest, hl⟩, ho⟩ := hb
  induction rest generalizing before with
  | nil =>
    right
    rw [List.append_nil] at hl
    rw [ho, hl, (size_of_assemble ha).1]
  | cons line rest ih =>
    by_cases hs : ∃ i text, Statement.ofSource line = .instruction i text
    · obtain ⟨i, text, hs⟩ := hs
      left
      refine ⟨i, text, _, before, line, rest, hl.symm, hs, ?_, rfl⟩
      rw [ho, Draft.offset, (finalPass_of_assemble ha hl.symm).2.2.1]
    · have hzero : (Statement.ofSource line).size = 0 := by
        cases hc : Statement.ofSource line with
        | instruction i text => exact absurd ⟨i, text, hc⟩ hs
        | _ => rfl
      apply ih (before ++ [line])
      · rw [ho]
        simp [hzero]
      · rw [← hl]
        simp

end Assembled

end StackMachine
