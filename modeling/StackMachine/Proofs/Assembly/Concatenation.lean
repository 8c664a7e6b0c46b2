import StackMachine.Proofs.Assembly.Passes

namespace StackMachine

/-- The hash of the label that a line goes to. -/
def Statement.targetHash? : Statement → Option UInt64
  | .instruction i text =>
    let word := Text.firstWord text
    if i.isBranch ∧ word ≠ [] ∧ Text.int32? word = none then some (Fnv.ofChars word) else none
  | _ => none

/-- No label that a line of the one part binds is bound in the other one or gone to from there. -/
def KeepsOff (part other : List String) : Prop :=
  ∀ line ∈ part, ∀ hash ∈ (Statement.ofSource line).labelHash?, ∀ line' ∈ other,
    hash ∉ (Statement.ofSource line').labelHash? ∧ hash ∉ (Statement.ofSource line').targetHash?

-- The search goes through the lines, and never through all hashes.
instance (part other : List String) : Decidable (KeepsOff part other) :=
  letI (line : String) : Decidable (∀ hash ∈ (Statement.ofSource line).labelHash?,
      ∀ line' ∈ other, hash ∉ (Statement.ofSource line').labelHash? ∧
        hash ∉ (Statement.ofSource line').targetHash?) :=
    Option.decidableForallMem _
  List.decidableBAll _ part

def Row.raise (distance : Nat) (r : Row) : Row :=
  { r with offset := r.offset + distance }

/-- A warning about a line of a source that stands below so many others. -/
def Warning.below (lines : Nat) (w : Warning) : Warning :=
  { w with line := w.line + lines }

theorem Row.flatMap_raise (distance : Nat) (rows : List Row) :
    (rows.map (Row.raise distance)).flatMap Row.bytes = rows.flatMap Row.bytes := by
  rw [List.flatMap_map]
  rfl

theorem Row.map_raise_zero (rows : List Row) : rows.map (Row.raise 0) = rows :=
  List.map_id' rows

theorem Warning.map_below_zero (warnings : List Warning) :
    warnings.map (Warning.below 0) = warnings :=
  List.map_id' warnings

/-- Where labels end up moves along with where the code of the lines starts. -/
theorem lastBound?_raise (hash : UInt64) (offset distance : Nat) (lines : List String) :
    lastBound? hash (offset + distance) lines =
      (lastBound? hash offset lines).map (· + distance) := by
  induction lines generalizing offset with
  | nil => rfl
  | cons line rest ih =>
    simp only [lastBound?, Nat.add_right_comm offset distance, ih, Option.map_or]
    congr 1
    split <;> rfl

section Raised

variable {labels labels' : Labels} {offset distance : Nat}

/-- Where the label of a branch stands higher up by the same distance as the branch, the code is the
same. -/
theorem Instruction.encode_raised {i : Instruction} {text : List Char}
    (h : ∀ hash ∈ (Statement.instruction i text).targetHash?,
      Labels.lookup hash labels.entries =
        (Labels.lookup hash labels'.entries).map (· + distance)) :
    i.encode labels text (offset + distance) = i.encode labels' text offset := by
  cases hb : i.isBranch with
  | false => exact i.encode_of_not_branch labels labels' text (offset + distance) offset hb
  | true =>
    have hargument : i.argument = some .displacement := by simpa [isBranch] using hb
    suffices htarget : i.readTarget labels text (offset + distance + i.size) =
        i.readTarget labels' text (offset + i.size) by
      simp only [encode, hargument, htarget]
    cases hn : Text.int32? (Text.firstWord text) with
    | some number => simp only [readTarget, hn]
    | none =>
      by_cases hw : Text.firstWord text = []
      · simp [readTarget, hw]
      · have htarget : (Statement.instruction i text).targetHash? =
            some (Fnv.ofChars (Text.firstWord text)) := by
          simp [Statement.targetHash?, hb, hw, hn]
        rw [i.readTarget_word labels _ hw hn, i.readTarget_word labels' _ hw hn, h _ htarget]
        cases Labels.lookup (Fnv.ofChars (Text.firstWord text)) labels'.entries with
        | none => rfl
        | some address =>
          have hdistance : ((address + distance : Nat) : Int) - (offset + distance + i.size : Nat) =
              (address : Int) - (offset + i.size : Nat) := by omega
          have hnext : address + distance = offset + distance + i.size ↔
              address = offset + i.size := by omega
          simp only [Option.map_some, hdistance, hnext]

theorem Statement.rows_raised {s : Statement}
    (h : ∀ hash ∈ s.targetHash?, Labels.lookup hash labels.entries =
      (Labels.lookup hash labels'.entries).map (· + distance)) (line : List Char) :
    s.rows labels (offset + distance) line =
      (s.rows labels' offset line).map (Row.raise distance) := by
  cases s with
  | instruction i text => simp [rows, Row.raise, Instruction.encode_raised h]
  | label name => simp [rows, Row.raise]
  | _ => rfl

theorem Statement.warnings_raised {s : Statement}
    (h : ∀ hash ∈ s.targetHash?, Labels.lookup hash labels.entries =
      (Labels.lookup hash labels'.entries).map (· + distance)) (final : Bool)
    (number lines : Nat) :
    s.warnings final (number + lines) labels (offset + distance) =
      (s.warnings final number labels' offset).map (Warning.below lines) := by
  have hremarks : s.remarks labels (offset + distance) = s.remarks labels' offset := by
    cases s with
    | instruction i text => simp [remarks, Instruction.encode_raised h]
    | _ => rfl
  unfold warnings
  rw [hremarks]
  split
  · simp [Warning.below]
  · rfl

end Raised

namespace Draft

variable {final : Bool} {d d' e e' : Draft} {number distance : Nat}

/-- The first draft is the second one raised by a distance, as far as the branches of some lines
can tell. -/
structure Raised (distance : Nat) (lines : List String) (d e : Draft) : Prop where
  offset_eq : d.offset = e.offset + distance
  lookup_eq : ∀ line ∈ lines, ∀ hash ∈ (Statement.ofSource line).targetHash?,
    Labels.lookup hash d.labels.entries =
      (Labels.lookup hash e.labels.entries).map (· + distance)

theorem Raised.takes {line : String} {rest : List String} {number' : Nat}
    (h : Raised distance (line :: rest) d e)
    (hd : d.Takes final number (Statement.ofSource line) d')
    (he : e.Takes final number' (Statement.ofSource line) e') : Raised distance rest d' e' := by
  refine ⟨?_, ?_⟩
  · rw [hd.offset_eq, he.offset_eq, h.offset_eq, Nat.add_right_comm]
  · intro other ho hash hhash
    rw [hd.lookup_eq, he.lookup_eq, h.offset_eq,
      h.lookup_eq other (List.mem_cons_of_mem line ho) hash hhash, Option.map_or]
    congr 1
    split <;> rfl

/-- Lines add the same to both drafts, but that they stand higher up in the first one. -/
theorem Raised.addLines {lines : List String} {above : Nat} (h : Raised distance lines d e)
    (hd : addLines final d (number + above) lines = (d', none))
    (he : addLines final e number lines = (e', none)) :
    ∃ rows warnings, e.Adds e' rows warnings ∧
      d.Adds d' (rows.map (Row.raise distance)) (warnings.map (Warning.below above)) := by
  induction lines generalizing d e number with
  | nil =>
    cases hd
    cases he
    exact ⟨[], [], .refl e', .refl d'⟩
  | cons line rest ih =>
    obtain ⟨d₁, hline, hrest⟩ := addLines_cons.mp hd
    obtain ⟨e₁, hline', hrest'⟩ := addLines_cons.mp he
    rw [Nat.add_right_comm] at hrest
    obtain ⟨rows, warnings, hlater, hlater'⟩ :=
      ih (h.takes (takes_of_addLine hline) (takes_of_addLine hline')) hrest hrest'
    have hown : ∀ hash ∈ (Statement.ofLine (Text.trim line.toList)).targetHash?,
        Labels.lookup hash d.labels.entries =
          (Labels.lookup hash e.labels.entries).map (· + distance) :=
      h.lookup_eq line List.mem_cons_self
    have hadds := adds_of_addLine hline
    simp only [h.offset_eq, Statement.rows_raised hown, Statement.warnings_raised hown] at hadds
    refine ⟨_, _, (adds_of_addLine hline').trans hlater, ?_⟩
    rw [List.map_append, List.map_append]
    exact hadds.trans hlater'

/-- A pass adds to an empty body and an empty listing, and there are no warnings yet. -/
theorem start_adds {rows : List Row} {warnings : List Warning}
    (h : { d with body := #[], listing := #[], warnings := #[] }.Adds d' rows warnings) :
    d'.body = (rows.flatMap Row.bytes).toArray ∧ d'.listing = rows.toArray ∧
      d'.warnings = warnings.toArray := by
  refine ⟨?_, ?_, ?_⟩
  · simpa using congrArg List.toArray h.body_eq
  · simpa using congrArg List.toArray h.listing_eq
  · simpa using congrArg List.toArray h.warnings_eq

end Draft

section Parts

variable {limits : Limits} {p q : List String} {hash : UInt64}

theorem KeepsOff.labels {offset : Nat} (h : KeepsOff q p)
    (hq : ∃ line ∈ q, hash ∈ (Statement.ofSource line).labelHash?) :
    lastBound? hash offset p = none := by
  obtain ⟨line, hl, hhash⟩ := hq
  exact lastBound?_eq_none
    (fun line' hl' hbound => (h line hl hash hhash line' hl').1 hbound) offset

theorem KeepsOff.targets {offset : Nat} (h : KeepsOff p q)
    (hq : ∃ line ∈ q, hash ∈ (Statement.ofSource line).targetHash?) :
    lastBound? hash offset p = none := by
  obtain ⟨line', hl', htarget⟩ := hq
  exact lastBound?_eq_none
    (fun line hl hbound => (h line hl hash hbound line' hl').2 htarget) offset

/-- Behind the first part there is no less room for the labels of the second one than in an empty
table. -/
theorem roomier_of_keepsOff {d : Draft} (h : KeepsOff q p)
    (hp : (Draft.empty limits).pass false p = (d, none)) :
    Draft.Roomier q d (Draft.empty limits) := by
  obtain ⟨hlimits, -⟩ := Draft.addLines_ok hp
  have hcapacity : d.labels.capacity = limits.labels := by rw [Draft.labels_addLines hp]; rfl
  refine ⟨?_, ?_⟩
  · rw [hlimits]
    simp [Draft.empty]
  · intro line hl hash hs
    right
    refine ⟨?_, ?_⟩
    · rw [lookup_firstPass hp, h.labels ⟨line, hl, hs⟩]
    · rw [hcapacity]
      simp [Draft.empty, Labels.empty, Labels.size]

/-- The final pass over the first part finds what it finds without the second part. -/
theorem raised_before {d d₁ : Draft} (h : KeepsOff q p)
    (hfirst : (Draft.empty limits).pass false (p ++ q) = (d, none))
    (hp : (Draft.empty limits).pass false p = (d₁, none)) :
    Draft.Raised 0 p { d with body := #[], listing := #[], warnings := #[] }
      { d₁ with body := #[], listing := #[], warnings := #[] } := by
  refine ⟨rfl, ?_⟩
  intro line hl hash htarget
  have hnone := @KeepsOff.targets q p hash (Program.headerSize + codeSize p) h ⟨line, hl, htarget⟩
  simp only [lookup_firstPass hfirst, lookup_firstPass hp, lastBound?_append, hnone,
    Option.none_or, Nat.add_zero, Option.map_id']

/-- The final pass over the second part finds what it finds without the first part, but higher up by
the size of that part. -/
theorem raised_behind {d d₁ d₂ : Draft} (h : KeepsOff p q)
    (hfirst : (Draft.empty limits).pass false (p ++ q) = (d, none))
    (hbefore : d.pass true p = (d₁, none))
    (hq : (Draft.empty limits).pass false q = (d₂, none)) :
    Draft.Raised (codeSize p) q d₁ { d₂ with body := #[], listing := #[], warnings := #[] } := by
  obtain ⟨-, hsize, -⟩ := Draft.addLines_ok hbefore
  refine ⟨?_, ?_⟩
  · simp only [Draft.offset, hsize, Array.size_empty, Nat.zero_add, Nat.add_zero]
  · intro line hl hash htarget
    have hnone := @KeepsOff.targets p q hash Program.headerSize h ⟨line, hl, htarget⟩
    simp only [Draft.lookup_pass hbefore, lookup_firstPass hfirst, lookup_firstPass hq,
      lastBound?_append, hnone, lastBound?_raise, Option.none_or, Option.or_none]

/-- If two parts share no labels and are assembled in one, each of them can be assembled alone. The
body in one is that of the first part followed by that of the second. So are the listing, where the
second part stands higher up by the size of the first body, and the warnings. -/
theorem assemble_append {a : Assembly} (ha : assemble limits (p ++ q) = .ok a)
    (hpq : KeepsOff p q) (hqp : KeepsOff q p) :
    ∃ b c, assemble limits p = .ok b ∧ assemble limits q = .ok c ∧
      a.program.body = b.program.body ++ c.program.body ∧
      a.listing = b.listing ++ c.listing.map (Row.raise b.program.body.size) ∧
      a.warnings = b.warnings ++ c.warnings.map (Warning.below p.length) := by
  obtain ⟨d, d', hfirst, hfinal, rfl⟩ := assemble_eq_ok_iff.mp ha
  -- Each part goes through the first pass alone, and so it is assembled.
  obtain ⟨d₁, hp, hrest⟩ := Draft.addLines_of_append hfirst
  obtain ⟨d₂, hq⟩ : ∃ d₂, (Draft.empty limits).pass false q = (d₂, none) :=
    (roomier_of_keepsOff hqp hp).addLines hrest
  obtain ⟨b, hb⟩ := exists_assemble hp
  obtain ⟨c, hc⟩ := exists_assemble hq
  refine ⟨b, c, hb, hc, ?_⟩
  obtain ⟨_, b', hp', hfinal_b, rfl⟩ := assemble_eq_ok_iff.mp hb
  obtain ⟨_, c', hq', hfinal_c, rfl⟩ := assemble_eq_ok_iff.mp hc
  -- The final pass over both parts does what the final passes over each of them do.
  obtain ⟨g, hbefore, hbehind⟩ := Draft.addLines_of_append hfinal
  have hbefore₀ : Draft.addLines true { d with body := #[], listing := #[], warnings := #[] }
      (1 + 0) p = (g, none) := hbefore
  obtain ⟨rows, warnings, hadds_b, hadds⟩ :=
    (raised_before hqp hfirst hp').addLines hbefore₀ hfinal_b
  obtain ⟨rows', warnings', hadds_c, hadds'⟩ :=
    (raised_behind hpq hfirst hbefore hq').addLines hbehind hfinal_c
  obtain ⟨hbody, hlisting, hwarnings⟩ := Draft.start_adds (hadds.trans hadds')
  obtain ⟨hbody_b, hlisting_b, hwarnings_b⟩ := Draft.start_adds hadds_b
  obtain ⟨hbody_c, hlisting_c, hwarnings_c⟩ := Draft.start_adds hadds_c
  have hsize : b'.body.size = codeSize p := by
    obtain ⟨-, hsize, -⟩ := Draft.addLines_ok hfinal_b
    simpa using hsize
  simp only [Program.body_ofBody, hsize, hlisting, hlisting_b, hlisting_c, hwarnings, hwarnings_b,
    hwarnings_c, Row.map_raise_zero, Warning.map_below_zero]
  refine ⟨?_, by simp, by simp⟩
  rw [hbody, hbody_b, hbody_c]
  simp [Row.flatMap_raise]

/-- Both parts bind labels and go to them. The second one binds a label twice, and it goes to one
that is not there. -/
theorem assemble_append_calls :
    let p := ["HERE A", "CALL A", "FROB"]
    let q := ["JMP B", "HERE B", "JMPE C", "HERE B", "JMP B"]
    KeepsOff p q ∧ KeepsOff q p ∧
      ∃ a b c, assemble ⟨2, 20⟩ (p ++ q) = .ok a ∧ assemble ⟨2, 20⟩ p = .ok b ∧
        assemble ⟨2, 20⟩ q = .ok c ∧ a.program.body = b.program.body ++ c.program.body ∧
        a.listing = b.listing ++ c.listing.map (Row.raise b.program.body.size) ∧
        a.warnings = b.warnings ++ c.warnings.map (Warning.below 3) := by
  intro p q
  have hpq : KeepsOff p q := by decide +kernel
  have hqp : KeepsOff q p := by decide +kernel
  have hfirst : (Draft.empty ⟨2, 20⟩).pass false (p ++ q) =
      (((Draft.empty ⟨2, 20⟩).pass false (p ++ q)).1, none) := by
    rw [← show ((Draft.empty ⟨2, 20⟩).pass false (p ++ q)).2 = none by decide +kernel]
  obtain ⟨a, ha⟩ := exists_assemble hfirst
  obtain ⟨b, c, hparts⟩ := assemble_append ha hpq hqp
  exact ⟨hpq, hqp, a, b, c, ha, hparts⟩

end Parts

end StackMachine
