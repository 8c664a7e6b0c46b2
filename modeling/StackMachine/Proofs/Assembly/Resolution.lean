import StackMachine.Proofs.Assembly.Layout

namespace StackMachine

/-- The hash of the label that a line binds. -/
def Statement.labelHash? : Statement → Option UInt64
  | .label name => some (Fnv.ofChars name)
  | _ => none

theorem Statement.labelHash?_eq_none {s : Statement} (h : ∀ name, s ≠ .label name) :
    s.labelHash? = none := by
  cases s with
  | label name => exact absurd rfl (h name)
  | _ => rfl

/-- Where a label is, after lines whose code starts at an offset: at the last line that binds it. -/
def lastBound? (hash : UInt64) : Nat → List String → Option Nat
  | _, [] => none
  | offset, line :: rest =>
    let s := Statement.ofSource line
    (lastBound? hash (offset + s.size) rest).or
      (if s.labelHash? = some hash then some offset else none)

/-- The last of some lines that bind a label stands at an offset. -/
def LastBound (hash : UInt64) (lines : List String) (address : Nat) : Prop :=
  ∃ before line after, lines = before ++ line :: after ∧
    (Statement.ofSource line).labelHash? = some hash ∧
    address = Program.headerSize + codeSize before ∧
    ∀ later ∈ after, (Statement.ofSource later).labelHash? ≠ some hash

/-- A label in a branch stands for an offset: that of the nearest line above that binds the label,
or of the last line of all if there is none above. -/
def StandsFor (hash : UInt64) (before lines : List String) (address : Nat) : Prop :=
  LastBound hash before address ∨
    (∀ line ∈ before, (Statement.ofSource line).labelHash? ≠ some hash) ∧
      LastBound hash lines address

theorem lastBound?_eq_none {hash : UInt64} {lines : List String}
    (h : ∀ line ∈ lines, (Statement.ofSource line).labelHash? ≠ some hash) (offset : Nat) :
    lastBound? hash offset lines = none := by
  induction lines generalizing offset with
  | nil => rfl
  | cons line rest ih =>
    obtain ⟨hline, hrest⟩ := List.forall_mem_cons.mp h
    simp only [lastBound?, ih hrest, hline, ↓reduceIte, Option.none_or]

theorem lastBound?_append (hash : UInt64) (offset : Nat) (before rest : List String) :
    lastBound? hash offset (before ++ rest) =
      (lastBound? hash (offset + codeSize before) rest).or (lastBound? hash offset before) := by
  induction before generalizing offset with
  | nil => simp [lastBound?]
  | cons line before ih =>
    simp only [List.cons_append, lastBound?, codeSize_cons, ih, Nat.add_assoc, Option.or_assoc]

theorem LastBound.lastBound? {hash : UInt64} {lines : List String} {address : Nat}
    (h : LastBound hash lines address) :
    lastBound? hash Program.headerSize lines = some address := by
  obtain ⟨before, line, after, rfl, hline, rfl, hafter⟩ := h
  simp only [lastBound?_append, StackMachine.lastBound?, lastBound?_eq_none hafter, hline,
    ↓reduceIte, Option.none_or, Option.some_or]

theorem isSome_lastBound? {hash : UInt64} {lines : List String} {line : String}
    (hl : line ∈ lines) (hs : (Statement.ofSource line).labelHash? = some hash) {offset : Nat} :
    (lastBound? hash offset lines).isSome := by
  induction lines generalizing offset with
  | nil => cases hl
  | cons first rest ih =>
    rw [lastBound?, Option.isSome_or]
    rcases List.mem_cons.mp hl with rfl | hrest
    · simp [hs]
    · simp [ih hrest]

theorem exists_of_lastBound? {hash : UInt64} {lines : List String} {offset address : Nat}
    (h : lastBound? hash offset lines = some address) :
    ∃ before line after, lines = before ++ line :: after ∧
      (Statement.ofSource line).labelHash? = some hash ∧ address = offset + codeSize before ∧
      ∀ later ∈ after, (Statement.ofSource later).labelHash? ≠ some hash := by
  induction lines generalizing offset with
  | nil => cases h
  | cons line rest ih =>
    by_cases hrest : ∃ later ∈ rest, (Statement.ofSource later).labelHash? = some hash
    · obtain ⟨later, hl, hlater⟩ := hrest
      obtain ⟨found, hfound⟩ := Option.isSome_iff_exists.mp
        (@isSome_lastBound? _ _ _ hl hlater (offset + (Statement.ofSource line).size))
      rw [lastBound?, hfound, Option.some_or] at h
      cases h
      obtain ⟨before, bound, after, rfl, hs, rfl, hafter⟩ := ih hfound
      refine ⟨line :: before, bound, after, rfl, hs, ?_, hafter⟩
      rw [codeSize_cons, Nat.add_assoc]
    · have hnone : ∀ later ∈ rest, (Statement.ofSource later).labelHash? ≠ some hash :=
        fun later hl hlater => hrest ⟨later, hl, hlater⟩
      simp only [lastBound?, lastBound?_eq_none hnone, Option.none_or,
        Option.ite_none_right_eq_some, Option.some.injEq] at h
      obtain ⟨hs, rfl⟩ := h
      exact ⟨[], line, rest, rfl, hs, rfl, hnone⟩

theorem lastBound?_eq_some_iff {hash : UInt64} {lines : List String} {address : Nat} :
    lastBound? hash Program.headerSize lines = some address ↔ LastBound hash lines address :=
  ⟨exists_of_lastBound?, LastBound.lastBound?⟩

theorem lastBound?_eq_none_iff {hash : UInt64} {lines : List String} {offset : Nat} :
    lastBound? hash offset lines = none ↔
      ∀ line ∈ lines, (Statement.ofSource line).labelHash? ≠ some hash := by
  constructor
  · intro h line hl hs
    have hsome := @isSome_lastBound? _ _ _ hl hs offset
    rw [h] at hsome
    cases hsome
  · exact fun h => lastBound?_eq_none h offset

/-- Both ways of saying what a label stands for agree. -/
theorem StandsFor.lastBound? {hash : UInt64} {before lines : List String} {address : Nat}
    (h : StandsFor hash before lines address) :
    (lastBound? hash Program.headerSize before).or (lastBound? hash Program.headerSize lines) =
      some address := by
  rcases h with habove | ⟨hnone, hlast⟩
  · rw [habove.lastBound?, Option.some_or]
  · rw [lastBound?_eq_none hnone, Option.none_or, hlast.lastBound?]

namespace Labels

theorem lookup_move {hash : UInt64} {entries : List (UInt64 × Nat)}
    (h : (lookup hash entries).isSome) (offset : Nat) (other : UInt64) :
    lookup other (move hash offset entries) =
      if hash = other then some offset else lookup other entries := by
  induction entries with
  | nil => cases h
  | cons entry rest ih =>
    obtain ⟨first, old⟩ := entry
    by_cases hfirst : first = hash
    · simp only [move, lookup, hfirst, ↓reduceIte]
      split <;> rfl
    · simp only [lookup, hfirst, ↓reduceIte] at h
      simp only [move, lookup, hfirst, ↓reduceIte, ih h]
      by_cases hother : first = other
      · have hne : hash ≠ other := fun heq => hfirst (hother.trans heq.symm)
        simp only [hother, hne, ↓reduceIte]
      · simp only [hother, ↓reduceIte]

theorem lookup_append (hash : UInt64) (entries later : List (UInt64 × Nat)) :
    lookup hash (entries ++ later) = (lookup hash entries).or (lookup hash later) := by
  induction entries with
  | nil => rfl
  | cons entry rest ih =>
    obtain ⟨first, old⟩ := entry
    simp only [List.cons_append, lookup, ih]
    split <;> rfl

/-- The entries once a label is defined, if there is room for it. -/
def bind (hash : UInt64) (offset : Nat) (entries : List (UInt64 × Nat)) : List (UInt64 × Nat) :=
  if (lookup hash entries).isSome then move hash offset entries else entries ++ [(hash, offset)]

theorem lookup_bind (hash : UInt64) (offset : Nat) (entries : List (UInt64 × Nat))
    (other : UInt64) :
    lookup other (bind hash offset entries) =
      if hash = other then some offset else lookup other entries := by
  unfold bind
  split
  · rename_i hknown
    exact lookup_move hknown offset other
  · rename_i hnew
    rw [Option.not_isSome_iff_eq_none] at hnew
    simp only [lookup_append, lookup]
    by_cases heq : hash = other
    · simp only [← heq, hnew, ↓reduceIte, Option.none_or]
    · simp only [heq, ↓reduceIte, Option.or_none]

theorem define_eq {labels labels' : Labels} {name : List Char} {offset : Nat}
    (h : labels.define name offset = .ok labels') :
    labels' = { labels with entries := bind (Fnv.ofChars name) offset labels.entries } := by
  unfold define at h
  simp only at h
  split at h
  · rename_i hknown
    cases h
    rw [bind, if_pos hknown]
  · rename_i hnew
    split at h
    · cases h
    · cases h
      rw [bind, if_neg hnew]

/-- To define a label changes what is found for its hash, and nothing else. -/
theorem lookup_define {labels labels' : Labels} {name : List Char} {offset : Nat}
    (h : labels.define name offset = .ok labels') (hash : UInt64) :
    lookup hash labels'.entries =
      if Fnv.ofChars name = hash then some offset else lookup hash labels.entries := by
  rw [define_eq h, lookup_bind]

end Labels

namespace Draft

variable {d d' : Draft} {final : Bool} {number : Nat}

theorem Takes.offset_eq {s : Statement} (h : d.Takes final number s d') :
    d'.offset = d.offset + s.size := by
  rw [offset, h.size_body, offset, Nat.add_assoc]

/-- A line changes where its own label is. -/
theorem Takes.lookup_eq {s : Statement} (h : d.Takes final number s d') (hash : UInt64) :
    Labels.lookup hash d'.labels.entries =
      (if s.labelHash? = some hash then some d.offset else none).or
        (Labels.lookup hash d.labels.entries) := by
  by_cases hs : ∃ name, s = .label name
  · obtain ⟨name, rfl⟩ := hs
    simp only [Labels.lookup_define (h.define_eq name rfl), Statement.labelHash?, Option.some.injEq]
    split <;> rfl
  · rw [h.labels_eq (not_exists.mp hs), Statement.labelHash?_eq_none (not_exists.mp hs)]
    rfl

/-- Once lines are taken in, each label is at the last of them that binds it. Where there is none
it is as before. -/
theorem lookup_addLines {lines : List String}
    (h : addLines final d number lines = (d', none)) (hash : UInt64) :
    Labels.lookup hash d'.labels.entries =
      (lastBound? hash d.offset lines).or (Labels.lookup hash d.labels.entries) := by
  induction lines generalizing d number with
  | nil =>
    cases h
    rfl
  | cons line rest ih =>
    obtain ⟨d₁, htakes, hrest⟩ := takes_of_addLines h
    simp only [ih hrest, htakes.offset_eq, htakes.lookup_eq, lastBound?, Option.or_assoc]

/-- A pass starts behind the header. -/
theorem lookup_pass {lines : List String} (h : d.pass final lines = (d', none)) (hash : UInt64) :
    Labels.lookup hash d'.labels.entries =
      (lastBound? hash Program.headerSize lines).or (Labels.lookup hash d.labels.entries) := by
  have hfound := lookup_addLines h hash
  simpa only [offset, Array.size_empty, Nat.add_zero] using hfound

/-- Lines add warnings about themselves only. -/
theorem warnings_addLines {lines : List String}
    (h : addLines final d number lines = (d', none)) :
    ∃ added : List Warning, d'.warnings.toList = d.warnings.toList ++ added ∧
      ∀ w ∈ added, number ≤ w.line ∧ w.line < number + lines.length := by
  induction lines generalizing d number with
  | nil =>
    cases h
    exact ⟨[], by simp, by simp⟩
  | cons line rest ih =>
    obtain ⟨d₁, htakes, hrest⟩ := takes_of_addLines h
    obtain ⟨later, hlater, hrange⟩ := ih hrest
    have hfirst : ∃ own : List Warning, d₁.warnings.toList = d.warnings.toList ++ own ∧
        ∀ w ∈ own, w.line = number := by
      rw [htakes.warnings_eq]
      unfold warn
      split
      · refine ⟨(Statement.remarks d.labels d.offset (Statement.ofSource line)).map
          (Warning.mk number), ?_, ?_⟩ <;> simp
      · refine ⟨[], ?_, ?_⟩ <;> simp
    obtain ⟨own, hown, hnumber⟩ := hfirst
    refine ⟨own ++ later, by rw [hlater, hown, List.append_assoc], ?_⟩
    intro w hw
    rw [List.length_cons]
    rcases List.mem_append.mp hw with hw | hw
    · have := hnumber w hw
      omega
    · have := hrange w hw
      omega

end Draft

/-- Warnings about other lines are not about a line. -/
theorem filter_line_eq_nil {warnings : List Warning} {number : Nat}
    (h : ∀ w ∈ warnings, w.line ≠ number) : warnings.filter (·.line = number) = [] := by
  rw [List.filter_eq_nil_iff]
  intro w hw
  simpa using h w hw

/-- A branch to what is no number looks its word up. -/
theorem Instruction.readTarget_word (i : Instruction) (labels : Labels) {text : List Char}
    (next : Nat) (hw : Text.firstWord text ≠ []) (hn : Text.int32? (Text.firstWord text) = none) :
    i.readTarget labels text next =
      match Labels.lookup (Fnv.ofChars (Text.firstWord text)) labels.entries with
      | some address => (Int32.ofInt ((address : Int) - next),
          if address = next then [.targetIsNext i (String.ofList (Text.firstWord text))] else [])
      | none => (0, [.undefinedLabel (String.ofList (Text.firstWord text))]) := by
  have hword : (Text.firstWord text).isEmpty = false := by simpa using hw
  have hzero (address : Nat) : (address : Int) - next = 0 ↔ address = next := by omega
  cases hlook : Labels.lookup (Fnv.ofChars (Text.firstWord text)) labels.entries with
  | none => simp [readTarget, hn, hword, Labels.get?, hlook]
  | some address => simp [readTarget, hn, hword, Labels.get?, hlook, hzero]

section Assembled

variable {limits : Limits} {lines : List String} {a : Assembly}

/-- What the first pass leaves for a hash. -/
theorem lookup_firstPass {d : Draft} (h : (Draft.empty limits).pass false lines = (d, none))
    (hash : UInt64) :
    Labels.lookup hash d.labels.entries = lastBound? hash Program.headerSize lines := by
  rw [Draft.lookup_pass h]
  simp [Draft.empty, Labels.empty, Labels.lookup]

/-- What the final pass finds for a hash at a place between two lines. -/
theorem lookup_finalPass (ha : assemble limits lines = .ok a) {before rest : List String}
    (hl : lines = before ++ rest) (hash : UInt64) :
    Labels.lookup hash (Draft.finalPass limits lines before).labels.entries =
      (lastBound? hash Program.headerSize before).or
        (lastBound? hash Program.headerSize lines) := by
  obtain ⟨d, hfirst, hbefore, -⟩ := finalPass_split ha hl
  rw [Draft.lookup_pass hbefore, lookup_firstPass hfirst]

/-- The code of a line stands in the program at the offset where the final pass takes it in. -/
theorem code_at (ha : assemble limits lines = .ok a) {before after : List String} {line : String}
    (hl : lines = before ++ line :: after) :
    let d := Draft.finalPass limits lines before
    let s := Statement.ofSource line
    (a.program.bytes.extract d.offset (d.offset + s.size)).toList = s.code d.labels d.offset := by
  intro d s
  obtain ⟨-, -, -, hprogram, -⟩ := passes_of_assemble ha
  obtain ⟨d', -, -, hrest⟩ := finalPass_split ha hl
  obtain ⟨d₁, htakes, hlast⟩ := Draft.takes_of_addLines hrest
  obtain ⟨-, -, -, ⟨later, hlater⟩, -⟩ := Draft.addLines_ok hlast
  have hbytes : a.program.bytes.toList =
      (Program.header ++ d.body.toList) ++ (s.code d.labels d.offset ++ later) := by
    rw [hprogram, Program.toList_ofBody, ← hlater, htakes.body_eq]
    simp [d, s]
  have hoffset : (Program.header ++ d.body.toList).length = d.offset := by
    rw [List.length_append, Program.length_header, Array.length_toList]
    rfl
  rw [Array.toList_extract, List.extract_eq_take_drop, hbytes, ← hoffset, List.drop_left,
    Nat.add_sub_cancel_left, ← s.length_code d.labels d.offset, hoffset, List.take_left]

/-- The warnings on a line are the remarks that the final pass has on it. -/
theorem warnings_at (ha : assemble limits lines = .ok a) {before after : List String}
    {line : String} (hl : lines = before ++ line :: after) :
    let d := Draft.finalPass limits lines before
    a.warnings.toList.filter (·.line = before.length + 1) =
      ((Statement.ofSource line).remarks d.labels d.offset).map
        (Warning.mk (before.length + 1)) := by
  intro d
  obtain ⟨-, -, -, -, hwarnings⟩ := passes_of_assemble ha
  obtain ⟨d', -, hbefore, hrest⟩ := finalPass_split ha hl
  obtain ⟨d₁, htakes, hlast⟩ := Draft.takes_of_addLines hrest
  obtain ⟨earlier, hearlier, habove⟩ := Draft.warnings_addLines hbefore
  obtain ⟨later, hlater, hbelow⟩ := Draft.warnings_addLines hlast
  have hown := htakes.warnings_eq
  simp only [Draft.warn, ↓reduceIte] at hown
  have hall : a.warnings.toList =
      earlier ++ ((Statement.ofSource line).remarks d.labels d.offset).map
        (Warning.mk (before.length + 1)) ++ later := by
    rw [hwarnings, hlater, hown]
    simp [hearlier, d, Nat.add_comm]
  have hearlier_line : ∀ w ∈ earlier, w.line ≠ before.length + 1 := by
    intro w hw
    have hrange := habove w hw
    omega
  have hlater_line : ∀ w ∈ later, w.line ≠ before.length + 1 := by
    intro w hw
    have hrange := hbelow w hw
    omega
  rw [hall, List.filter_append, List.filter_append, filter_line_eq_nil hearlier_line,
    filter_line_eq_nil hlater_line, List.nil_append, List.append_nil, List.filter_eq_self]
  simp

/-- A branch to a label has the distance from its own end to where the label stands, and one warning
if that is no distance at all. Where no line of the source binds the label, the distance is zero and
there is one warning, too. -/
theorem branch_goes_to_label (ha : assemble limits lines = .ok a) (hbody : limits.body < 2 ^ 31)
    {before after : List String} {line : String} (hl : lines = before ++ line :: after)
    {i : Instruction} {text : List Char} (hs : Statement.ofSource line = .instruction i text)
    (hb : i.isBranch = true) (hw : Text.firstWord text ≠ [])
    (hn : Text.int32? (Text.firstWord text) = none) :
    let label := Text.firstWord text
    let offset := Program.headerSize + codeSize before
    let next := offset + i.size
    ∃ (payload : Int32) (remarks : List Remark),
      (a.program.bytes.extract offset next).toList =
        i.firstByte 0 :: Bytes.ofWord payload.toUInt32 ∧
      a.warnings.toList.filter (·.line = before.length + 1) =
        remarks.map (Warning.mk (before.length + 1)) ∧
      (∀ address, StandsFor (Fnv.ofChars label) before lines address →
        payload.toInt = (address : Int) - next ∧
        remarks = if address = next then [.targetIsNext i (String.ofList label)] else []) ∧
      ((∀ other ∈ lines, (Statement.ofSource other).labelHash? ≠ some (Fnv.ofChars label)) →
        payload = 0 ∧ remarks = [.undefinedLabel (String.ofList label)]) := by
  intro label offset next
  obtain ⟨-, -, hsize, -, hlabels⟩ := finalPass_of_assemble ha hl
  have hoffset : (Draft.finalPass limits lines before).offset = offset := by
    rw [Draft.offset, hsize]
  have hargument : i.argument = some .displacement := by simpa [Instruction.isBranch] using hb
  have hcode := code_at ha hl
  have hremarks := warnings_at ha hl
  have hlookup := lookup_finalPass ha hl (Fnv.ofChars label)
  simp only [hs, hoffset, Statement.size, Statement.code, Statement.remarks, Instruction.encode,
    hargument] at hcode hremarks
  generalize Draft.finalPass limits lines before = d at hcode hremarks hlookup hlabels
  have htarget := i.readTarget_word d.labels next hw hn
  refine ⟨_, _, hcode, hremarks, ?_, ?_⟩
  · intro address hstands
    have hfound : d.labels.get? label = some address := hlookup.trans hstands.lastBound?
    have hto := (hlabels.get hfound).bounds ha
    have hfrom : Program.headerSize ≤ next ∧ next ≤ a.program.size := by
      refine Boundary.bounds ha ⟨before ++ [line], ⟨after, by simp [hl]⟩, ?_⟩
      simp [hs, Statement.size, next, offset, Nat.add_assoc]
    obtain ⟨hprogram, hle⟩ := size_of_assemble ha
    rw [Labels.get?] at hfound
    rw [htarget, hfound]
    exact ⟨Int32.toInt_ofInt_of_le (by omega) (by omega), rfl⟩
  · intro hnone
    have habove : ∀ other ∈ before,
        (Statement.ofSource other).labelHash? ≠ some (Fnv.ofChars label) :=
      fun other ho => hnone other (by simp [hl, ho])
    rw [lastBound?_eq_none habove, lastBound?_eq_none hnone] at hlookup
    rw [htarget, hlookup]
    exact ⟨rfl, rfl⟩

/-- The nearest line above counts, not the last one of the source. -/
theorem branch_goes_to_label_above :
    let lines := ["HERE F", "OUT", "JMP F", "HERE F"]
    ∃ a, assemble ⟨1, 6⟩ lines = .ok a ∧
      StandsFor (Fnv.ofChars ['F']) ["HERE F", "OUT"] lines 16 ∧
      ∃ payload : Int32, payload.toInt = -6 ∧
        (a.program.bytes.extract 17 22).toList =
          Instruction.jump.firstByte 0 :: Bytes.ofWord payload.toUInt32 ∧
        a.warnings.toList.filter (·.line = 3) = [] := by
  intro lines
  have hassembled : assemble ⟨1, 6⟩ lines = .ok ⟨.ofBody #[80, 40, 0xFA, 0xFF, 0xFF, 0xFF],
      #[⟨"HERE F", 16, []⟩, ⟨"OUT", 16, [80]⟩, ⟨"JMP F", 17, [40, 0xFA, 0xFF, 0xFF, 0xFF]⟩,
        ⟨"HERE F", 22, []⟩], #[]⟩ := by decide +kernel
  have hjump : Statement.ofSource "JMP F" = .instruction .jump ['F'] := by decide +kernel
  have hl : lines = ["HERE F", "OUT"] ++ "JMP F" :: ["HERE F"] := rfl
  have hstands : StandsFor (Fnv.ofChars ['F']) ["HERE F", "OUT"] lines 16 :=
    .inl ⟨[], "HERE F", ["OUT"], rfl, by decide +kernel, rfl, by decide +kernel⟩
  obtain ⟨payload, remarks, hcode, hwarnings, hlabel, -⟩ :=
    branch_goes_to_label hassembled (by decide) hl hjump rfl (by decide) (by decide)
  obtain ⟨hpayload, hremarks⟩ := hlabel 16 hstands
  have hsize : codeSize ["HERE F", "OUT"] = 1 := by decide +kernel
  rw [hsize] at hcode hpayload hremarks
  rw [hremarks] at hwarnings
  exact ⟨_, hassembled, hstands, payload, hpayload, hcode, hwarnings⟩

end Assembled

end StackMachine
