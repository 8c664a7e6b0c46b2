import StackMachine.Proofs.Assembly.Layout

namespace StackMachine

namespace Statement

/-- The rows that a line has in the listing. There is one at most. -/
def rows (labels : Labels) (offset : Nat) (line : List Char) : Statement → List Row
  | label _ => [⟨String.ofList line, offset, []⟩]
  | instruction i text => [⟨String.ofList line, offset, (i.encode labels text offset).1⟩]
  | _ => []

/-- The warnings that a pass keeps about a line. -/
def warnings (final : Bool) (number : Nat) (labels : Labels) (offset : Nat) (s : Statement) :
    List Warning :=
  if final then (s.remarks labels offset).map (Warning.mk number) else []

theorem flatMap_rows (s : Statement) (labels : Labels) (offset : Nat) (line : List Char) :
    (s.rows labels offset line).flatMap Row.bytes = s.code labels offset := by
  cases s <;> simp [rows, code]

end Statement

namespace Draft

variable {final : Bool} {d d' d₁ : Draft} {number : Nat}

/-- A draft has rows with their code and warnings more than another one. -/
structure Adds (d d' : Draft) (rows : List Row) (warnings : List Warning) : Prop where
  body_eq : d'.body.toList = d.body.toList ++ rows.flatMap Row.bytes
  listing_eq : d'.listing.toList = d.listing.toList ++ rows
  warnings_eq : d'.warnings.toList = d.warnings.toList ++ warnings

theorem Adds.refl (d : Draft) : d.Adds d [] [] :=
  ⟨by simp, by simp, by simp⟩

theorem Adds.trans {rows rows' : List Row} {warnings warnings' : List Warning}
    (h : d.Adds d₁ rows warnings) (h' : d₁.Adds d' rows' warnings') :
    d.Adds d' (rows ++ rows') (warnings ++ warnings') := by
  refine ⟨?_, ?_, ?_⟩
  · rw [h'.body_eq, h.body_eq, List.flatMap_append, List.append_assoc]
  · rw [h'.listing_eq, h.listing_eq, List.append_assoc]
  · rw [h'.warnings_eq, h.warnings_eq, List.append_assoc]

theorem listing_addLine {line : List Char} (h : d.addLine final number line = (d', none)) :
    d'.listing.toList = d.listing.toList ++
      (Statement.ofLine line).rows d.labels d.offset line := by
  unfold addLine at h
  split at h
  · rename_i hs
    cases h
    simp [hs, Statement.rows]
  · rename_i hs
    cases h
    rw [hs, warn_frame]
    simp [Statement.rows]
  · rename_i word hs
    cases h
    rw [hs, warn_frame]
    simp [Statement.rows]
  · rename_i name hs
    split at h
    · cases h
    · cases h
      simp [hs, Statement.rows]
  · rename_i i text hs
    simp only at h
    split at h
    · cases h
    · cases h
      rw [hs, warn_frame]
      simp [Statement.rows]

/-- A line adds its rows and the warnings about it. -/
theorem adds_of_addLine {line : List Char} (h : d.addLine final number line = (d', none)) :
    let s := Statement.ofLine line
    d.Adds d' (s.rows d.labels d.offset line) (s.warnings final number d.labels d.offset) := by
  intro s
  have htakes := takes_of_addLine h
  refine ⟨?_, listing_addLine h, ?_⟩
  · rw [htakes.body_eq, Statement.flatMap_rows]
  · rw [htakes.warnings_eq, warn, Statement.warnings]
    split <;> simp [s]

/-- Lines are taken in one by one. -/
theorem addLines_cons {line : String} {rest : List String} :
    addLines final d number (line :: rest) = (d', none) ↔
      ∃ d₁, d.addLine final number (Text.trim line.toList) = (d₁, none) ∧
        addLines final d₁ (number + 1) rest = (d', none) := by
  simp only [addLines]
  constructor
  · intro h
    split at h
    · rename_i d₁ hline
      exact ⟨d₁, hline, h⟩
    · cases h
  · rintro ⟨d₁, hline, hrest⟩
    simp only [hline, hrest]

/-- Lines add rows and warnings, and nothing else to body and listing. -/
theorem adds_of_addLines {lines : List String} (h : addLines final d number lines = (d', none)) :
    ∃ rows warnings, d.Adds d' rows warnings := by
  induction lines generalizing d number with
  | nil =>
    cases h
    exact ⟨[], [], .refl d'⟩
  | cons line rest ih =>
    obtain ⟨d₁, hline, hrest⟩ := addLines_cons.mp h
    obtain ⟨rows, warnings, hlater⟩ := ih hrest
    exact ⟨_, _, (adds_of_addLine hline).trans hlater⟩

/-- The body that a pass makes is the code of its listing. -/
theorem body_pass {lines : List String} (h : d.pass final lines = (d', none)) :
    d'.body.toList = d'.listing.toList.flatMap Row.bytes := by
  obtain ⟨rows, warnings, hadds⟩ := adds_of_addLines h
  rw [hadds.body_eq, hadds.listing_eq]
  simp

end Draft

/-- Lines are assembled where both passes go through, and to what the final pass leaves. -/
theorem assemble_eq_ok_iff {limits : Limits} {lines : List String} {a : Assembly} :
    assemble limits lines = .ok a ↔
      ∃ d d', (Draft.empty limits).pass false lines = (d, none) ∧ d.pass true lines = (d', none) ∧
        a = ⟨.ofBody d'.body, d'.listing, d'.warnings⟩ := by
  simp only [assemble, Draft.assemble]
  constructor
  · intro ha
    split at ha
    · cases ha
    · rename_i d hfirst
      split at ha
      · cases ha
      · rename_i d' hfinal
        cases ha
        exact ⟨d, d', hfirst, hfinal, rfl⟩
  · rintro ⟨d, d', hfirst, hfinal, rfl⟩
    simp only [hfirst, hfinal]

end StackMachine
