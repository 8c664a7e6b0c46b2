import StackMachine.Proofs.Assembly.Room
import StackMachine.Proofs.Disassembly.Execution

namespace StackMachine

/-- The first pass over some lines. -/
def Draft.firstPass (limits : Limits) (lines : List String) : Draft :=
  ((Draft.empty limits).pass false lines).1

/-- A line is a branch to a label. -/
def BranchTo (line : String) (i : Instruction) (label : List Char) : Prop :=
  ∃ text, Statement.ofSource line = .instruction i text ∧ i.isBranch = true ∧
    Text.firstWord text = label ∧ label ≠ [] ∧ Text.int32? label = none

/-- The distance to where a label is found, and zero if it is not. -/
def distanceTo (next : Nat) : Option Nat → Int32
  | some address => Int32.ofInt ((address : Int) - next)
  | none => 0

theorem Instruction.distance_readTarget (i : Instruction) (labels : Labels) {text : List Char}
    (next : Nat) (hw : Text.firstWord text ≠ [])
    (hn : Text.int32? (Text.firstWord text) = none) :
    (i.readTarget labels text next).1 =
      distanceTo next (Labels.lookup (Fnv.ofChars (Text.firstWord text)) labels.entries) := by
  rw [i.readTarget_word labels next hw hn]
  cases Labels.lookup (Fnv.ofChars (Text.firstWord text)) labels.entries <;> rfl

/-- Some lines leave a label at an address where it was before: they do not bind it, or the last of
them that does so stands there. -/
def LeavesAt (hash : UInt64) (lines : List String) (address : Nat) : Prop :=
  (∀ line ∈ lines, (Statement.ofSource line).labelHash? ≠ some hash) ∨ LastBound hash lines address

section LastBound

variable {hash : UInt64} {lines : List String} {address : Nat}

/-- A label that lines leave at an address is there for the lines after them. -/
theorem leavesAt_iff :
    LeavesAt hash lines address ↔
      (lastBound? hash Program.headerSize lines).or (some address) = some address := by
  rw [LeavesAt, ← @lastBound?_eq_none_iff hash lines Program.headerSize, ← lastBound?_eq_some_iff]
  cases lastBound? hash Program.headerSize lines with
  | none => simp
  | some found => simp

theorem LastBound.boundary {before rest : List String} (h : LastBound hash before address)
    (hl : lines = before ++ rest) : Boundary lines address := by
  obtain ⟨above, line, after, rfl, -, haddress, -⟩ := h
  exact ⟨above, ⟨line :: after ++ rest, by rw [hl]; simp⟩, haddress⟩

end LastBound

section Assembled

variable {limits : Limits} {lines before after : List String} {line : String} {a : Assembly}
  {i : Instruction} {label : List Char}

/-- What a branch to a label is assembled to, and the warnings about it. -/
theorem branch_at (ha : assemble limits lines = .ok a) (hl : lines = before ++ line :: after)
    (hb : BranchTo line i label) :
    let offset := Program.headerSize + codeSize before
    let next := offset + i.size
    let found := (lastBound? (Fnv.ofChars label) Program.headerSize before).or
      (lastBound? (Fnv.ofChars label) Program.headerSize lines)
    (a.program.bytes.extract offset next).toList =
        i.firstByte 0 :: Bytes.ofWord (distanceTo next found).toUInt32 ∧
      (found = none → a.warnings.toList.filter (·.line = before.length + 1) =
        [⟨before.length + 1, .undefinedLabel (String.ofList label)⟩]) := by
  intro offset next found
  obtain ⟨text, hs, hbranch, rfl, hw, hn⟩ := hb
  have hargument : i.argument = some .displacement := by simpa [Instruction.isBranch] using hbranch
  have hoffset : (Draft.finalPass limits lines before).offset = offset := offset_finalPass ha hl
  have hlookup := lookup_finalPass ha hl (Fnv.ofChars (Text.firstWord text))
  have hcode := code_at ha hl
  have hwarnings := warnings_at ha hl
  simp only [hs, hoffset, Statement.size, Statement.code, Statement.remarks, Instruction.encode,
    hargument] at hcode hwarnings
  refine ⟨?_, ?_⟩
  · rw [hcode, i.distance_readTarget _ _ hw hn, hlookup]
  · intro hnone
    rw [hwarnings, i.readTarget_word _ _ hw hn, hlookup.trans hnone]
    rfl

/-- A branch to a label goes to where the first pass left the label, if the lines above leave it
there, too. Otherwise it goes elsewhere. -/
theorem branch_goes_where_left (ha : assemble limits lines = .ok a)
    (hl : lines = before ++ line :: after) (hb : BranchTo line i label) {address : Nat}
    (hleft : (Draft.firstPass limits lines).labels.get? label = some address) :
    let offset := Program.headerSize + codeSize before
    let next := offset + i.size
    ∃ payload : Int32,
      (a.program.bytes.extract offset next).toList =
        i.firstByte 0 :: Bytes.ofWord payload.toUInt32 ∧
      (LeavesAt (Fnv.ofChars label) before address →
        payload = Int32.ofInt ((address : Int) - next)) ∧
      (limits.body < 2 ^ 31 →
        (payload.toInt = (address : Int) - next ↔
          LeavesAt (Fnv.ofChars label) before address)) := by
  intro offset next
  obtain ⟨hcode, -⟩ := branch_at ha hl hb
  obtain ⟨d, hfirst, -⟩ := passes_of_assemble ha
  have hlast : lastBound? (Fnv.ofChars label) Program.headerSize lines = some address := by
    rw [← lookup_firstPass hfirst]
    simpa only [Draft.firstPass, hfirst, Labels.get?] using hleft
  rw [hlast] at hcode
  obtain ⟨found, hfound⟩ : ∃ found, (lastBound? (Fnv.ofChars label) Program.headerSize before).or
      (some address) = some found := Option.isSome_iff_exists.mp (by simp)
  rw [hfound] at hcode
  refine ⟨_, hcode, ?_, ?_⟩
  · intro hleaves
    rw [leavesAt_iff, hfound, Option.some.injEq] at hleaves
    rw [distanceTo, hleaves]
  · intro hbody
    -- Both addresses lie within the program, so their distances to the branch do not wrap around.
    have hfrom : Boundary lines next := by
      obtain ⟨text, hs, -⟩ := hb
      refine ⟨before ++ [line], ⟨after, by simp [hl]⟩, ?_⟩
      simp [hs, Statement.size, next, offset, Nat.add_assoc]
    have hto : Boundary lines found := by
      cases habove : lastBound? (Fnv.ofChars label) Program.headerSize before with
      | none =>
        rw [habove, Option.none_or, ← hlast] at hfound
        exact (lastBound?_eq_some_iff.mp hfound).boundary (List.append_nil lines).symm
      | some other =>
        rw [habove, Option.some_or] at hfound
        exact (lastBound?_eq_some_iff.mp (habove.trans hfound)).boundary hl
    have hfrom' := hfrom.bounds ha
    have hto' := hto.bounds ha
    obtain ⟨hsize, hle⟩ := size_of_assemble ha
    have hdistance : (Int32.ofInt ((found : Int) - next)).toInt = (found : Int) - next :=
      Int32.toInt_ofInt_of_le (by omega) (by omega)
    rw [leavesAt_iff, hfound, Option.some.injEq, distanceTo, hdistance]
    omega

/-- The label is bound twice above the last branch, and the first pass left it where the second of
these lines stands. -/
theorem branch_goes_where_left_below :
    let lines := ["JMP F", "HERE F", "POP", "HERE F", "JMP F"]
    ∃ a, assemble ⟨1, 11⟩ lines = .ok a ∧
      (Draft.firstPass ⟨1, 11⟩ lines).labels.get? ['F'] = some 22 ∧
      LeavesAt (Fnv.ofChars ['F']) ["JMP F", "HERE F", "POP", "HERE F"] 22 ∧
      ∃ payload : Int32, payload.toInt = (22 : Int) - 27 ∧
        (a.program.bytes.extract 22 27).toList =
          Instruction.jump.firstByte 0 :: Bytes.ofWord payload.toUInt32 := by
  intro lines
  have hassembled : assemble ⟨1, 11⟩ lines =
      .ok ⟨.ofBody #[40, 1, 0, 0, 0, 12, 40, 0xFB, 0xFF, 0xFF, 0xFF],
        #[⟨"JMP F", 16, [40, 1, 0, 0, 0]⟩, ⟨"HERE F", 21, []⟩, ⟨"POP", 21, [12]⟩,
          ⟨"HERE F", 22, []⟩, ⟨"JMP F", 22, [40, 0xFB, 0xFF, 0xFF, 0xFF]⟩], #[]⟩ := by
    decide +kernel
  have hleft : (Draft.firstPass ⟨1, 11⟩ lines).labels.get? ['F'] = some 22 := by decide +kernel
  have hleaves : LeavesAt (Fnv.ofChars ['F']) ["JMP F", "HERE F", "POP", "HERE F"] 22 :=
    .inr ⟨["JMP F", "HERE F", "POP"], "HERE F", [], rfl, by decide +kernel, by decide +kernel,
      nofun⟩
  have hbranch : BranchTo "JMP F" .jump ['F'] :=
    ⟨['F'], by decide +kernel, rfl, rfl, by decide, by decide⟩
  have hl : lines = ["JMP F", "HERE F", "POP", "HERE F"] ++ "JMP F" :: [] := rfl
  obtain ⟨payload, hcode, -, hexact⟩ := branch_goes_where_left hassembled hl hbranch hleft
  have hsize : codeSize ["JMP F", "HERE F", "POP", "HERE F"] = 6 := by decide +kernel
  rw [hsize] at hcode hexact
  exact ⟨_, hassembled, hleft, hleaves, payload, (hexact (by decide)).mpr hleaves, hcode⟩

/-- A branch between two lines that bind its label does not go to where the first pass left it. -/
theorem branch_between_bindings_goes_up :
    ¬ ∀ (limits : Limits) (lines before after : List String) (line : String) (a : Assembly)
        (i : Instruction) (label : List Char) (address : Nat),
      assemble limits lines = .ok a → lines = before ++ line :: after → BranchTo line i label →
      (Draft.firstPass limits lines).labels.get? label = some address →
        let offset := Program.headerSize + codeSize before
        let next := offset + i.size
        (a.program.bytes.extract offset next).toList =
          i.firstByte 0 :: Bytes.ofWord (Int32.ofInt ((address : Int) - next)).toUInt32 := by
  intro h
  have hassembled : assemble ⟨1, 7⟩ ["HERE F", "OUT", "JMP F", "OUT", "HERE F"] =
      .ok ⟨.ofBody #[80, 40, 0xFA, 0xFF, 0xFF, 0xFF, 80], #[⟨"HERE F", 16, []⟩, ⟨"OUT", 16, [80]⟩,
        ⟨"JMP F", 17, [40, 0xFA, 0xFF, 0xFF, 0xFF]⟩, ⟨"OUT", 22, [80]⟩, ⟨"HERE F", 23, []⟩],
        #[]⟩ := by decide +kernel
  have hbranch : BranchTo "JMP F" .jump ['F'] :=
    ⟨['F'], by decide +kernel, rfl, rfl, by decide, by decide⟩
  have hcode := h ⟨1, 7⟩ _ ["HERE F", "OUT"] ["OUT", "HERE F"] "JMP F" _ .jump ['F'] 23
    hassembled rfl hbranch (by decide +kernel)
  revert hcode
  decide +kernel

/-- A branch without a distance fails and changes nothing. -/
theorem Machine.execute_unresolved {callDepth : Nat} {d : Decoded} {s : Store} {c : Console}
    (hb : d.instruction.isBranch = true) (hp : d.payload = 0) :
    execute callDepth d s c = ⟨.error (.unresolvedBranch d.instruction d.offset), s, c⟩ := by
  have hask : Store.ask (fun _ => Store.distance d d.payload) s =
      .error (.unresolvedBranch d.instruction d.offset) s := by
    simp [Store.ask, Store.distance, hp]
  cases hi : d.instruction
  case jump | jumpGreater | jumpLess | jumpEqual | jumpGreaterEqual | jumpLessEqual | call =>
    rw [hi] at hask
    simp only [execute, hi, handler, Handler.withDisplacement, quiet, Store.jump, Store.branch,
      Store.call, bind, EStateM.bind, hask]
  all_goals
    rw [hi] at hb
    cases hb

/-- If no line binds a label of the hash that a branch goes to, the branch has the distance zero and
one warning, and a machine that gets there stops at it. -/
theorem unbound_branch_traps (ha : assemble limits lines = .ok a)
    (hl : lines = before ++ line :: after) (hb : BranchTo line i label)
    (hnone : ∀ other ∈ lines, (Statement.ofSource other).labelHash? ≠ some (Fnv.ofChars label)) :
    let offset := Program.headerSize + codeSize before
    (a.program.bytes.extract offset (offset + i.size)).toList = i.firstByte 0 :: [0, 0, 0, 0] ∧
      a.warnings.toList.filter (·.line = before.length + 1) =
        [⟨before.length + 1, .undefinedLabel (String.ofList label)⟩] ∧
      ∀ m : Machine, m.program = a.program → m.ip = offset → m.store.data.status = [] →
        m.store.calls.status = [] → i.inputs ≤ m.store.data.size.toNat →
          m.step = ⟨m, .error (.unresolvedBranch i offset), none⟩ := by
  intro offset
  obtain ⟨hcode, hwarnings⟩ := branch_at ha hl hb
  have hfound : (lastBound? (Fnv.ofChars label) Program.headerSize before).or
      (lastBound? (Fnv.ofChars label) Program.headerSize lines) = none := by
    rw [lastBound?_eq_none hnone, lastBound?_eq_none fun other ho => hnone other (by simp [hl, ho])]
    rfl
  rw [hfound] at hcode
  have hzero (next : Nat) : Bytes.ofWord (distanceTo next none).toUInt32 = [0, 0, 0, 0] := by
    rw [distanceTo]
    decide
  rw [hzero] at hcode
  refine ⟨hcode, hwarnings hfound, ?_⟩
  intro m hm hip hdata hcalls hin
  obtain ⟨text, hs, hbranch, rfl, hw, hn⟩ := hb
  have hargument : i.argument = some .displacement := by simpa [Instruction.isBranch] using hbranch
  obtain ⟨-, -, hsize, -⟩ := finalPass_of_assemble ha hl
  have hoffset : (Draft.finalPass limits lines before).offset = offset := by
    rw [Draft.offset, hsize]
  -- A machine that gets there reads what was emitted for the line.
  have hread := (Emitted.read ha ⟨before, line, after, hl, hs, hoffset, rfl⟩).1
  have hpayload :
      (i.coded (Draft.finalPass limits lines before).labels text offset).payload = 0 := by
    simp only [Instruction.coded, hargument]
    rw [i.distance_readTarget _ _ hw hn, lookup_finalPass ha hl, hfound]
    rfl
  generalize Draft.finalPass limits lines before = d at hread hpayload
  rw [← hm, ← hip] at hread
  rw [← hip] at hpayload
  have hfetch := Machine.fetch_of_read hread
  rw [if_neg (by simpa [Coded.decoded] using hin)] at hfetch
  have hfails := @Machine.execute_unresolved m.callDepth ((i.coded d.labels text m.ip).decoded m.ip)
    m.store m.console (by simpa [Coded.decoded] using hbranch) hpayload
  rw [(Machine.carriesOut_of_fetch hdata hcalls hfetch).fails _ _ _ hfails, ← hip]
  simp [Coded.decoded]

/-- A machine compares two numbers to go to a label that is not there, and stops. -/
theorem unbound_branch_traps_compared :
    let lines := ["PUSH 1", "DUP", "JMPE G", "HERE F"]
    ∃ a m₀, assemble ⟨1, 11⟩ lines = .ok a ∧
      Machine.start a.program ⟨1, 1, 1, 1, 0, 0, 1⟩ ⟨⟨[], false⟩, ⟨#[], none, false⟩⟩ = .ok m₀ ∧
      (∀ other ∈ lines, (Statement.ofSource other).labelHash? ≠ some (Fnv.ofChars ['G'])) ∧
      (a.program.bytes.extract 22 27).toList =
        Instruction.jumpEqual.firstByte 0 :: [0, 0, 0, 0] ∧
      a.warnings.toList.filter (·.line = 3) = [⟨3, .undefinedLabel "G"⟩] ∧
      (m₀.after 2).step = ⟨m₀.after 2, .error (.unresolvedBranch .jumpEqual 22), none⟩ := by
  intro lines
  have hassembled : assemble ⟨1, 11⟩ lines = .ok ⟨.ofBody #[8, 1, 0, 0, 0, 16, 52, 0, 0, 0, 0],
      #[⟨"PUSH 1", 16, [8, 1, 0, 0, 0]⟩, ⟨"DUP", 21, [16]⟩, ⟨"JMPE G", 22, [52, 0, 0, 0, 0]⟩,
        ⟨"HERE F", 27, []⟩], #[⟨3, .undefinedLabel "G"⟩]⟩ := by decide +kernel
  have hbranch : BranchTo "JMPE G" .jumpEqual ['G'] :=
    ⟨['G'], by decide +kernel, rfl, rfl, by decide, by decide⟩
  have hnone : ∀ other ∈ lines,
      (Statement.ofSource other).labelHash? ≠ some (Fnv.ofChars ['G']) := by decide +kernel
  have hl : lines = ["PUSH 1", "DUP"] ++ "JMPE G" :: ["HERE F"] := rfl
  obtain ⟨hcode, hwarnings, htraps⟩ := unbound_branch_traps hassembled hl hbranch hnone
  have hsize : codeSize ["PUSH 1", "DUP"] = 6 := by decide +kernel
  rw [hsize] at hcode htraps
  exact ⟨_, _, hassembled, rfl, hnone, hcode, hwarnings, htraps _ (by decide +kernel)
    (by decide +kernel) (by decide +kernel) (by decide +kernel) (by decide +kernel)⟩

/-- A label that no line binds may be found all the same: another one has its hash. -/
theorem missing_label_taken_for_another :
    ¬ ∀ (limits : Limits) (lines before after : List String) (line : String) (a : Assembly)
        (i : Instruction) (label : List Char),
      assemble limits lines = .ok a → lines = before ++ line :: after → BranchTo line i label →
      (∀ other ∈ lines, Statement.ofSource other ≠ .label label) →
        let offset := Program.headerSize + codeSize before
        (a.program.bytes.extract offset (offset + i.size)).toList =
            i.firstByte 0 :: [0, 0, 0, 0] ∧
          a.warnings.toList.filter (·.line = before.length + 1) =
            [⟨before.length + 1, .undefinedLabel (String.ofList label)⟩] := by
  intro h
  have hassembled : assemble ⟨1, 7⟩ ["JMP c1E51sSEyx", "OUT", "HERE 7mohtcOFVz", "END"] =
      .ok ⟨.ofBody #[40, 1, 0, 0, 0, 80, 0], #[⟨"JMP c1E51sSEyx", 16, [40, 1, 0, 0, 0]⟩,
        ⟨"OUT", 21, [80]⟩, ⟨"HERE 7mohtcOFVz", 22, []⟩, ⟨"END", 22, [0]⟩], #[]⟩ := by
    decide +kernel
  have hbranch : BranchTo "JMP c1E51sSEyx" .jump "c1E51sSEyx".toList :=
    ⟨"c1E51sSEyx".toList, by decide +kernel, rfl, by decide +kernel, by decide, by decide +kernel⟩
  have hunbound : ∀ other ∈ ["JMP c1E51sSEyx", "OUT", "HERE 7mohtcOFVz", "END"],
      Statement.ofSource other ≠ .label "c1E51sSEyx".toList := by decide +kernel
  obtain ⟨-, hwarnings⟩ := h ⟨1, 7⟩ _ [] ["OUT", "HERE 7mohtcOFVz", "END"] "JMP c1E51sSEyx" _ .jump
    "c1E51sSEyx".toList hassembled rfl hbranch hunbound
  cases hwarnings

end Assembled

end StackMachine
